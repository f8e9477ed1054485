import RobustLP.Proofs.Failure

/-!
# Calls that edit a model

The operations by which a model is built are collected as the type of calls (`Model.Call`). Each operation has one lemma that says
all it can do (`Edit.Ends`): the model that a call leaves when it succeeds is described by `Model.Call.Done`, and what it leaves
behind when it fails by `Model.Call.Torn`.

A model is *reached* when calls lead to it from a model without content; calls that failed count too, with the model that they
left (`Model.Reached`). What is required of the calls, such as that they only mention what the model has declared, is a parameter
of that notion.
-/

namespace RobustLP

open Edit

namespace Model

variable {K B : Type}

/-- A call of one of the operations that build a model. Several variables are declared without values. -/
inductive Call (K B : Type) where
  | addVariable (d : Declaration K B)
  | addVariables (n : Nat) (d : Declaration K B)
  | addParameter (d : Declaration K B)
  | addParameters (n : Nat) (d : Declaration K B)
  | renameVariable (i : Nat) (name : Option String)
  | renameParameter (k : Nat) (name : Option String)
  | setLower (i : Nat) (b : GivenBound B)
  | setUpper (i : Nat) (b : GivenBound B)
  | setParameterLower (k : Nat) (b : GivenBound B)
  | setParameterUpper (k : Nat) (b : GivenBound B)
  | setValue (i : Nat) (value : Option (Except Error K))
  | loadValues (values : List (Except Error K))
  | addConstraint (c : ConstraintCandidate K B) (oracle : GivenOracle)
  | setObjective (q : Except Error (Quantity K)) (sense : Option Sense)
  | setDefaultOracle (oracle : Except String OracleId)
  | setPolicy (adapted : List PolicyObject) (policy : Value) (dependsOn : List PolicyObject)

/-! ## What a call leaves -/

section

variable [Bound B] [Scalar K B]

/-- **What is entered for a declaration:** its name, its domain, and its bounds as far as the domain allows. -/
structure Declaration.Enters (d : Declaration K B) (x : Declared B) : Prop where
  name : x.name = d.name
  domain : d.domain = .ok x.domain
  lower : ∃ low, d.lower.getD (.ok Bound.negInf) = .ok low
    ∧ x.lower = Limit.lower low (x.domain.least?.map fun n => Scalar.bound (Scalar.ofInt (K := K) n))
  upper : ∃ high, d.upper.getD (.ok Bound.posInf) = .ok high
    ∧ x.upper = Limit.upper high (x.domain.greatest?.map fun n => Scalar.bound (Scalar.ofInt (K := K) n))
  ordered : Bound.lt x.upper.value x.lower.value = false

/-- No model owns an object, or this one does. -/
def Owned (self : ModelId) (owner : Option ModelId) : Prop := owner = none ∨ owner = some self

theorem Owned.eq_of_some {self i : ModelId} (h : Owned self (some i)) : i = self :=
  Option.some.inj (h.resolve_left (Option.some_ne_none i))

/-- The expression that a quantity stands for as objective. -/
def Quantity.objective : Quantity K → Expr K
  | .number x => .linear (.ofConstant x)
  | .expr e => e

/-- An object is a variable of the model that can follow a rule of a kind. -/
def Adapts (m : Model K B) (self : ModelId) (policy : PolicyKind) (o : PolicyObject) (j : Nat) : Prop :=
  o = .decision { model := self, index := j } ∧ (policy = .affine → m.isInteger j = false)

/-- **The models that calls leave when they succeed.** -/
inductive Call.Done (self : ModelId) (m : Model K B) : Call K B → Model K B → Prop
  | addVariable {d : Declaration K B} {x : Declared B} {v : Option K} : d.Enters x → d.value = v.map .ok →
    Done self m (.addVariable d) { m with decisions := m.decisions ++ [x], values := m.values ++ [v] }
  | addVariables {n : Nat} {d : Declaration K B} {xs : List (Declared B)} :
    List.Forall₂ (fun i x => { d with name := elementName d.name i, value := none : Declaration K B }.Enters x)
      (List.range n) xs →
    Done self m (.addVariables n d) { m with decisions := m.decisions ++ xs
                                             values := m.values ++ List.replicate xs.length none }
  | addParameter {d : Declaration K B} {x : Declared B} : d.Enters x →
    Done self m (.addParameter d) { m with parameters := m.parameters ++ [x] }
  | addParameters {n : Nat} {d : Declaration K B} {xs : List (Declared B)} :
    List.Forall₂ (fun i x => { d with name := elementName d.name i : Declaration K B }.Enters x) (List.range n) xs →
    Done self m (.addParameters n d) { m with parameters := m.parameters ++ xs }
  | renameVariable {i : Nat} {name : Option String} : Done self m (.renameVariable i name)
    { m with decisions := m.decisions.modify i fun d => { d with name } }
  | renameParameter {k : Nat} {name : Option String} : Done self m (.renameParameter k name)
    { m with parameters := m.parameters.modify k fun d => { d with name } }
  | setLower {i : Nat} {b : GivenBound B} {x : B} {d : Declared B} : b.getD (.ok Bound.negInf) = .ok x →
    m.decisions[i]? = some d → Bound.lt d.upper.value x = false →
    Done self m (.setLower i b) { m with decisions := m.decisions.modify i fun d => { d with lower := ⟨x, false⟩ } }
  | setUpper {i : Nat} {b : GivenBound B} {x : B} {d : Declared B} : b.getD (.ok Bound.posInf) = .ok x →
    m.decisions[i]? = some d → Bound.lt x d.lower.value = false →
    Done self m (.setUpper i b) { m with decisions := m.decisions.modify i fun d => { d with upper := ⟨x, false⟩ } }
  | setParameterLower {k : Nat} {b : GivenBound B} {x : B} {d : Declared B} : b.getD (.ok Bound.negInf) = .ok x →
    m.parameters[k]? = some d → Bound.lt d.upper.value x = false → Done self m (.setParameterLower k b)
      { m with parameters := m.parameters.modify k fun d => { d with lower := ⟨x, false⟩ } }
  | setParameterUpper {k : Nat} {b : GivenBound B} {x : B} {d : Declared B} : b.getD (.ok Bound.posInf) = .ok x →
    m.parameters[k]? = some d → Bound.lt x d.lower.value = false → Done self m (.setParameterUpper k b)
      { m with parameters := m.parameters.modify k fun d => { d with upper := ⟨x, false⟩ } }
  | setValue {i : Nat} {v : Option K} : i < m.values.length →
    Done self m (.setValue i (v.map .ok)) { m with values := m.values.set i v }
  | loadValues {values : List (Except Error K)} {xs : List K} : values.take m.decisions.length = xs.map .ok →
    xs.length ≤ m.values.length →
    Done self m (.loadValues values) { m with values := xs.map some ++ m.values.drop xs.length }
  | addDeterministic {c : Constraint K B} {oracle : GivenOracle} : (m.robust = true → oracle = none) →
    c.kind = .linear → Owned self c.owner →
    Done self m (.addConstraint (.constraint c) oracle) { m with constraints := m.constraints ++ [c] }
  | addToSet {c : Constraint K B} : m.robust = true → c.kind = .uncertain → Owned self c.owner →
    Done self m (.addConstraint (.constraint c) none) { m with setConstraints := m.setConstraints ++ [c] }
  | addUncertain {c : Constraint K B} {o : Option OracleId} : m.robust = true → c.kind = .full → Owned self c.owner →
    Done self m (.addConstraint (.constraint c) (o.map .ok)) { m with uncertain := m.uncertain ++ [(c, o)] }
  | setObjective {q : Quantity K} {s : Sense} : (m.robust = true ∨ (Quantity.objective q).kind = .linear) →
    Owned self (Quantity.objective q).owner →
    Done self m (.setObjective (.ok q) (some s)) { m with objective := Quantity.objective q, sense := s }
  | setDefaultOracle {o : OracleId} : Done self m (.setDefaultOracle (.ok o)) { m with defaultOracle := o }
  | setFixed {adapted dependsOn : List PolicyObject} {policy : Value} {js : List Nat} :
    PolicyKind.ofValue? policy = some .fixed → List.Forall₂ (m.Adapts self .fixed) adapted js →
    Done self m (.setPolicy adapted policy dependsOn) { m with affine := m.affine.filter fun e => !js.contains e.1 }
  | setAffine {adapted dependsOn : List PolicyObject} {policy : Value} {js ks : List Nat} :
    PolicyKind.ofValue? policy = some .affine → (∀ k ∈ ks, .parameter { model := self, index := k } ∈ dependsOn) →
    List.Forall₂ (m.Adapts self .affine) adapted js → Done self m (.setPolicy adapted policy dependsOn)
      { m with affine := js.foldl (fun t j => enterPolicy j ks t) m.affine }

/-- **What calls leave behind when they fail,** if anything: a variable without a place for its value, an objective without its
sense, or the values before the one at which loading stopped. -/
inductive Call.Torn (self : ModelId) (m : Model K B) : Call K B → Model K B → Prop
  | addVariable {d : Declaration K B} {x : Declared B} {e : Error} : d.Enters x → d.value = some (.error e) →
    Torn self m (.addVariable d) { m with decisions := m.decisions ++ [x] }
  | setObjective {q : Quantity K} : (m.robust = true ∨ (Quantity.objective q).kind = .linear) →
    Owned self (Quantity.objective q).owner →
    Torn self m (.setObjective (.ok q) none) { m with objective := Quantity.objective q }
  | loadValues {values : List (Except Error K)} {xs : List K} : xs.length < m.decisions.length →
    xs.map .ok <+: values → xs.length ≤ m.values.length →
    (xs.length = m.values.length ∨ ∃ e, values[xs.length]? = some (.error e)) →
    Torn self m (.loadValues values) { m with values := xs.map some ++ m.values.drop xs.length }

end

/-! ## Checking of arguments -/

section

variable {naming : Naming} {self : ModelId} {m : Model K B}

theorem steady_declaredAt (ds : List (Declared B)) (i : Nat) :
    Steady (declaredAt ds i : Edit (Model K B) (Declared B)) := by
  unfold declaredAt
  cases ds[i]? with
  | none => exact steady_throw _
  | some d => exact steady_pure d

theorem eq_of_run_declaredAt {ds : List (Declared B)} {i : Nat} {d : Declared B}
    (h : (declaredAt ds i).run m = (.ok d, m)) : ds[i]? = some d := by
  unfold declaredAt at h
  cases hget : ds[i]? with
  | none =>
    rw [hget] at h
    cases h
  | some d' =>
    rw [hget] at h
    cases h
    rfl

theorem steady_checkOwner {owner : Option ModelId} {what : String} {text : Edit (Model K B) String} (h : Steady text) :
    Steady (checkOwner self owner what text) := by
  cases owner with
  | none => exact steady_pure _
  | some i =>
    unfold checkOwner
    dsimp only
    split
    next => exact h.bind fun t => steady_get.bind fun m => steady_throw _
    next => exact steady_pure _

theorem owned_of_run_checkOwner {owner : Option ModelId} {what : String} {text : Edit (Model K B) String}
    (h : (checkOwner self owner what text).run m = (.ok ⟨⟩, m)) : Owned self owner := by
  cases owner with
  | none => exact .inl rfl
  | some i =>
    unfold checkOwner at h
    dsimp only at h
    split at h
    next =>
      obtain ⟨t, m₁, -, hrest⟩ := run_bind_eq_ok.mp h
      cases hrest
    next heq => exact .inr (congrArg some (not_not.mp heq))

theorem steady_policyParameters (objects : List PolicyObject) :
    Steady (policyParameters naming self objects : Edit (Model K B) (List Nat)) := by
  refine Steady.foldlM (fun ks o => ?_) objects []
  cases o with
  | parameter u => exact (steady_checkOwner (steady_pure _)).bind fun _ => steady_pure _
  | decision v => exact steady_throw _
  | other t s => exact steady_throw _

/-- The positions that a policy depends on are those of parameters of the model among the objects, each once. -/
theorem mem_of_run_policyParameters {objects : List PolicyObject} {ks : List Nat}
    (h : (policyParameters naming self objects).run m = (.ok ks, m)) :
    ks.Nodup ∧ ∀ k ∈ ks, .parameter { model := self, index := k } ∈ objects := by
  refine invariant_of_run_foldlM (I := fun ks => ks.Nodup ∧ ∀ k ∈ ks, .parameter { model := self, index := k } ∈ objects)
    (fun o ho ks ks' s s' hrun hks => ?_) h ⟨List.nodup_nil, fun k hk => absurd hk List.not_mem_nil⟩
  cases o with
  | decision v => cases hrun
  | other t s => cases hrun
  | parameter u =>
    obtain ⟨⟨⟩, s₁, hcheck, hpure⟩ := run_bind_eq_ok.mp hrun
    obtain rfl := (steady_checkOwner (steady_pure _)).eq_of_run hcheck
    obtain rfl := (owned_of_run_checkOwner hcheck).eq_of_some
    cases hpure
    split
    next => exact hks
    next hnew =>
      have hnotMem : u.index ∉ ks := fun hmem => hnew (List.contains_iff_mem.mpr hmem)
      refine ⟨hks.1.append (List.nodup_singleton _) (List.disjoint_singleton.mpr hnotMem), fun k hk => ?_⟩
      rcases List.mem_append.mp hk with hk | hk
      · exact hks.2 k hk
      · obtain rfl := List.mem_singleton.mp hk
        exact ho

theorem steady_policyVariables (policy : PolicyKind) (objects : List PolicyObject) :
    Steady (policyVariables naming self policy objects : Edit (Model K B) (List Nat)) := by
  refine Steady.mapM fun o _ => ?_
  cases o with
  | decision v =>
    refine (steady_checkOwner (steady_pure _)).bind fun _ => steady_get.bind fun m => ?_
    split
    next => exact (steady_throw _).bind fun _ => steady_pure _
    next => exact steady_pure _
  | parameter u => exact steady_throw _
  | other t s => exact steady_throw _

/-- The positions of the variables that follow a policy are those of the objects, one by one. -/
theorem adapts_of_run_policyVariables {policy : PolicyKind} {objects : List PolicyObject} {js : List Nat}
    (h : (policyVariables naming self policy objects).run m = (.ok js, m)) :
    List.Forall₂ (m.Adapts self policy) objects js := by
  refine forall₂_of_run_mapM_at (fun o j s' hrun => ?_) h
  cases o with
  | parameter u => cases hrun
  | other t s => cases hrun
  | decision v =>
    obtain ⟨⟨⟩, s₁, hcheck, hrest⟩ := run_bind_eq_ok.mp hrun
    obtain rfl := (steady_checkOwner (steady_pure _)).eq_of_run hcheck
    obtain rfl := (owned_of_run_checkOwner hcheck).eq_of_some
    obtain ⟨s₂, s₃, hget, hrest⟩ := run_bind_eq_ok.mp hrest
    cases hget
    split at hrest
    next => cases hrest
    next hinteger =>
      cases hrest
      exact ⟨rfl, rfl, fun hpolicy => by simpa [hpolicy] using hinteger⟩

variable [Scalar K B] [Written K]

theorem steady_objectiveOf (q : Quantity K) : Steady (objectiveOf naming q : Edit (Model K B) (Expr K)) := by
  cases q with
  | number x => exact steady_pure _
  | expr e =>
    refine steady_get.bind fun m => ?_
    split
    next => exact steady_pure _
    next => exact steady_get.bind fun m => (steady_liftFault _).bind fun t => steady_throw _

theorem eq_of_run_objectiveOf {q : Quantity K} {e : Expr K} (h : (objectiveOf naming q).run m = (.ok e, m)) :
    e = Quantity.objective q ∧ (m.robust = true ∨ e.kind = .linear) := by
  cases q with
  | number x =>
    cases h
    exact ⟨rfl, .inr rfl⟩
  | expr e' =>
    obtain ⟨m₁, m₂, hget, hrest⟩ := run_bind_eq_ok.mp h
    cases hget
    split at hrest
    next hkind =>
      cases hrest
      exact ⟨rfl, by simpa using hkind⟩
    next =>
      obtain ⟨m₃, m₄, hget, hrest⟩ := run_bind_eq_ok.mp hrest
      obtain ⟨t, m₅, htext, hthrow⟩ := run_bind_eq_ok.mp hrest
      cases hthrow

end

/-! ## Declarations -/

/-- **Several declarations are all accepted or all refused,** as they differ in their names only. -/
theorem ends_several {f : Option String → Edit (Model K B) Nat} {E : Option String → Declared B → Prop}
    {D T : Model K B → Prop} {m : Model K B} {n : Nat} {name : Option String}
    (enter : List (Declared B) → Model K B → Model K B)
    (hnil : ∀ m, enter [] m = m) (happend : ∀ xs ys m, enter ys (enter xs m) = enter (xs ++ ys) m)
    (h : (∀ name, ∃ x, E name x ∧ ∀ m, ∃ i, (f name).run m = (.ok i, enter [x] m)) ∨ ∀ name, Refuses (f name))
    (hdone : ∀ xs, List.Forall₂ (fun i x => E (elementName name i) x) (List.range n) xs → D (enter xs m)) :
    Ends ((List.range n).mapM fun i => f (elementName name i)) m (fun _ => D) T := by
  rcases h with h | h
  · choose x hx hrun using h
    obtain ⟨is, his⟩ := run_mapM_of_enters enter hnil happend (fun i m => hrun (elementName name i) m) (List.range n) m
    refine ends_of_run his (hdone _ ?_)
    rw [List.forall₂_map_right_iff, List.forall₂_same]
    exact fun i _ => hx _
  · rcases run_mapM_of_refuses (fun i => h (elementName name i)) (List.range n) with hn | hn
    · exact hn.ends
    · rw [hn] at hdone ⊢
      exact ends_of_run rfl (hnil m ▸ hdone [] .nil)

section

variable [Bound B] [Scalar K B] [Written B] {m : Model K B} {self : ModelId}

/-- **A declaration is accepted or refused whatever its name is,** and whatever the model holds. -/
theorem checkDeclaration_cases (wrongDomain : String → Error) (wrongBounds : String → String → String → Error)
    (d : Declaration K B) :
    (∀ name, ∃ x, { d with name : Declaration K B }.Enters x ∧
      ∀ m, (checkDeclaration wrongDomain wrongBounds { d with name }).run m = (.ok x, m)) ∨
    ∀ name, Refuses (checkDeclaration wrongDomain wrongBounds { d with name }) := by
  unfold checkDeclaration
  cases d.domain with
  | error type => exact .inr fun name => refuses_throw _
  | ok domain =>
    dsimp only
    rcases readBound_cases (σ := Model K B) Bound.negInf d.lower with ⟨low, hlow, hrunLow⟩ | hlow
    · rcases readBound_cases (σ := Model K B) Bound.posInf d.upper with ⟨high, hhigh, hrunHigh⟩ | hhigh
      · set lower := Limit.lower low (domain.least?.map fun n => Scalar.bound (Scalar.ofInt (K := K) n)) with hlower
        set upper := Limit.upper high (domain.greatest?.map fun n => Scalar.bound (Scalar.ofInt (K := K) n)) with hupper
        by_cases hlt : Bound.lt upper.value lower.value = true
        · refine .inr fun name m => ?_
          rw [run_bind_of_ok (hrunLow m), run_bind_of_ok (hrunHigh m), if_pos hlt]
          exact ⟨_, rfl⟩
        · refine .inl fun name => ⟨{ name, lower, upper, domain }, ?_, fun m => ?_⟩
          · exact ⟨rfl, rfl, ⟨low, hlow, hlower⟩, ⟨high, hhigh, hupper⟩, Bool.eq_false_iff.mpr hlt⟩
          · rw [run_bind_of_ok (hrunLow m), run_bind_of_ok (hrunHigh m), if_neg hlt]
            rfl
      · refine .inr fun name m => ?_
        obtain ⟨err, herr⟩ := hhigh m
        exact ⟨err, by rw [run_bind_of_ok (hrunLow m), run_bind_of_error herr]⟩
    · exact .inr fun name => hlow.bind

theorem ends_addParameter (d : Declaration K B) : Ends (addParameter d) m
    (fun k m' => k = m.parameters.length ∧ (Call.addParameter d).Done self m m') ((Call.addParameter d).Torn self m) := by
  rcases checkDeclaration_cases .parameterDomain .parameterLower d with h | h
  · obtain ⟨x, hx, hrun⟩ := h d.name
    exact ends_of_run (run_bind_of_ok (hrun m)) ⟨rfl, .addParameter hx⟩
  · exact (h d.name).bind.ends

/-- **Declares a variable:** only its value may be refused after the variable was entered. -/
theorem ends_addVariable (d : Declaration K B) : Ends (addVariable d) m
    (fun i m' => i = m.decisions.length ∧ (Call.addVariable d).Done self m m') ((Call.addVariable d).Torn self m) := by
  rcases checkDeclaration_cases .variableDomain .variableLower d with h | h
  · obtain ⟨x, hx, hrun⟩ := h d.name
    rcases hvalue : d.value with - | err | v
    · have h : (addVariable d).run m
          = (.ok m.decisions.length, { m with decisions := m.decisions ++ [x], values := m.values ++ [none] }) := by
        unfold addVariable
        rw [run_bind_of_ok (hrun m), hvalue]
        rfl
      exact ends_of_run h ⟨rfl, .addVariable hx hvalue⟩
    · have h : (addVariable d).run m = (.error err, { m with decisions := m.decisions ++ [x] }) := by
        unfold addVariable
        rw [run_bind_of_ok (hrun m), hvalue]
        rfl
      exact ends_of_error h (.inr (.addVariable hx hvalue))
    · have h : (addVariable d).run m
          = (.ok m.decisions.length, { m with decisions := m.decisions ++ [x], values := m.values ++ [some v] }) := by
        unfold addVariable
        rw [run_bind_of_ok (hrun m), hvalue]
        rfl
      exact ends_of_run h ⟨rfl, .addVariable hx hvalue⟩
  · exact (h d.name).bind.ends

/-- **Several parameters are declared or none.** -/
theorem ends_addParameters (n : Nat) (d : Declaration K B) : Ends (addParameters n d) m
    (fun _ m' => (Call.addParameters n d).Done self m m') ((Call.addParameters n d).Torn self m) := by
  refine ends_several (f := fun name => addParameter { d with name })
    (E := fun name x => { d with name : Declaration K B }.Enters x)
    (fun xs m => { m with parameters := m.parameters ++ xs }) (fun m => by simp) (fun xs ys m => by simp) ?_
    fun xs hxs => .addParameters hxs
  refine (checkDeclaration_cases .parameterDomain .parameterLower d).imp (fun h name => ?_) fun h name => (h name).bind
  obtain ⟨x, hx, hrun⟩ := h name
  exact ⟨x, hx, fun m => ⟨m.parameters.length, run_bind_of_ok (hrun m)⟩⟩

/-- **Several variables are declared or none.** -/
theorem ends_addVariables (n : Nat) (d : Declaration K B) : Ends (addVariables n { d with value := none : Declaration K B }) m
    (fun _ m' => (Call.addVariables n d).Done self m m') ((Call.addVariables n d).Torn self m) := by
  refine ends_several (f := fun name => addVariable { d with value := none, name : Declaration K B })
    (E := fun name x => { d with value := none, name : Declaration K B }.Enters x)
    (fun xs m => { m with decisions := m.decisions ++ xs, values := m.values ++ List.replicate xs.length none })
    (fun m => by simp) (fun xs ys m => by simp) ?_ fun xs hxs => .addVariables hxs
  refine (checkDeclaration_cases .variableDomain .variableLower { d with value := none : Declaration K B }).imp
    (fun h name => ?_) fun h name => (h name).bind
  obtain ⟨x, hx, hrun⟩ := h name
  exact ⟨x, hx, fun m => ⟨m.decisions.length, run_bind_of_ok (hrun m)⟩⟩

end

/-! ## Changes -/

section

variable {m : Model K B} {self : ModelId}

/-- A bound of what is declared is changed once it was compared with the other one. -/
theorem ends_checkedChange {absent : B} {b : GivenBound B} {table : Model K B → List (Declared B)} {i : Nat}
    {wrong : B → Declared B → Bool} {error : B → Declared B → Model K B → Error} {change : B → Model K B → Model K B}
    {D T : Model K B → Prop}
    (h : ∀ x d, b.getD (.ok absent) = .ok x → (table m)[i]? = some d → wrong x d = false → D (change x m)) :
    Ends (do
      let x ← readBound absent b
      let d ← declaredAt (table (← get)) i
      if wrong x d then throw (error x d (← get))
      modify (change x)) m (fun _ => D) T := by
  refine (steady_readBound absent b).ends fun x hx => steady_get.ends fun m' hm' => ?_
  cases hm'
  refine (steady_declaredAt _ i).ends fun d hd => ?_
  split
  next => exact (steady_get.refuses fun m => refuses_throw _).ends
  next hwrong =>
    exact ends_of_run rfl (h x d (eq_of_run_readBound hx) (eq_of_run_declaredAt hd) (Bool.eq_false_iff.mpr hwrong))

variable [Bound B] [Scalar K B] [Written B]

theorem ends_setLower (i : Nat) (b : GivenBound B) : Ends (setLower i b) m
    (fun _ m' => (Call.setLower i b).Done self m m') ((Call.setLower i b).Torn self m) :=
  ends_checkedChange fun _ _ hx hd hlt => .setLower hx hd hlt

theorem ends_setUpper (i : Nat) (b : GivenBound B) : Ends (setUpper i b) m
    (fun _ m' => (Call.setUpper i b).Done self m m') ((Call.setUpper i b).Torn self m) :=
  ends_checkedChange fun _ _ hx hd hlt => .setUpper hx hd hlt

theorem ends_setParameterLower (k : Nat) (b : GivenBound B) : Ends (setParameterLower k b) m
    (fun _ m' => (Call.setParameterLower k b).Done self m m') ((Call.setParameterLower k b).Torn self m) :=
  ends_checkedChange fun _ _ hx hd hlt => .setParameterLower hx hd hlt

theorem ends_setParameterUpper (k : Nat) (b : GivenBound B) : Ends (setParameterUpper k b) m
    (fun _ m' => (Call.setParameterUpper k b).Done self m m') ((Call.setParameterUpper k b).Torn self m) :=
  ends_checkedChange fun _ _ hx hd hlt => .setParameterUpper hx hd hlt

end

/-! ## Values -/

section

variable {m : Model K B} {self : ModelId}

/-- The model with values loaded from a position on. -/
def loaded (m : Model K B) (i : Nat) (xs : List K) : Model K B :=
  { m with values := m.values.take i ++ xs.map some ++ m.values.drop (i + xs.length) }

theorem loaded_nil (m : Model K B) (i : Nat) : m.loaded i [] = m := by
  simp [loaded]

/-- One value after the other. -/
theorem loaded_set {i : Nat} (hi : i < m.values.length) (x : K) (xs : List K) :
    loaded { m with values := m.values.set i (some x) } (i + 1) xs = m.loaded i (x :: xs) := by
  have htake : (m.values.set i (some x)).take (i + 1) = m.values.take i ++ [some x] := by
    rw [List.set_eq_take_append_cons_drop, if_pos hi, List.take_append, List.take_of_length_le (by simp)]
    simp [Nat.min_eq_left hi.le]
  have hdrop : (m.values.set i (some x)).drop (i + 1 + xs.length) = m.values.drop (i + (x :: xs).length) := by
    rw [List.drop_set_of_lt (by omega), List.length_cons, Nat.add_assoc, Nat.add_comm 1]
  simp only [loaded, htake, hdrop, List.map_cons, List.append_assoc, List.cons_append, List.nil_append]

theorem run_storeValue {i : Nat} (hi : i < m.values.length) (x : Option K) :
    (storeValue i x).run m = (.ok ⟨⟩, { m with values := m.values.set i x }) := by
  unfold storeValue
  rw [run_bind_of_ok (run_get m), if_pos hi]
  rfl

theorem run_storeValue_of_le {i : Nat} (hi : m.values.length ≤ i) (x : Option K) :
    (storeValue i x).run m = (.error (.fault .noIndex), m) := by
  unfold storeValue
  rw [run_bind_of_ok (run_get m), if_neg hi.not_gt]
  rfl

theorem ends_setValue (i : Nat) (value : Option (Except Error K)) [Bound B] [Scalar K B] : Ends (setValue i value) m
    (fun _ m' => (Call.setValue i value).Done self m m') ((Call.setValue i value).Torn self m) := by
  have hstore : ∀ x : Option K, Ends (storeValue i x) m (fun _ m' => (Call.setValue i (x.map .ok)).Done self m m')
      ((Call.setValue i value).Torn self m) := by
    intro x
    rcases Nat.lt_or_ge i m.values.length with hi | hi
    · exact ends_of_run (run_storeValue hi x) (.setValue hi)
    · exact ends_of_error (run_storeValue_of_le hi x) (.inl rfl)
  rcases value with - | err | x
  · exact hstore none
  · exact (refuses_throw err).bind.ends
  · exact (steady_pure x).ends fun y hy => by
      cases hy
      exact hstore (some x)

/-- **Values are loaded one by one** until one cannot be read or has no place. -/
theorem run_loadFrom : ∀ (vs : List (Except Error K)) (i : Nat) (m : Model K B), i ≤ m.values.length →
    ∃ xs : List K, xs.map .ok <+: vs ∧ i + xs.length ≤ m.values.length ∧ ∃ r,
      ((vs.zipIdx i).forM fun (r, i) => do storeValue i (some (← Edit.lift r))).run m = (r, m.loaded i xs)
      ∧ (r = .ok ⟨⟩ ∧ xs.length = vs.length ∨ ∃ err, r = .error err ∧ xs.length < vs.length
        ∧ (i + xs.length = m.values.length ∨ vs[xs.length]? = some (.error err)))
  | [], i, m, hi => ⟨[], List.nil_prefix, hi, .ok ⟨⟩, by rw [loaded_nil]; rfl, .inl ⟨rfl, rfl⟩⟩
  | .error err :: vs, i, m, hi => ⟨[], List.nil_prefix, hi, .error err, by rw [loaded_nil]; rfl,
      .inr ⟨err, rfl, Nat.zero_lt_succ _, .inr rfl⟩⟩
  | .ok x :: vs, i, m, hi => by
    rcases Nat.lt_or_ge i m.values.length with hlt | hge
    · obtain ⟨xs, hstart, hlength, r, hrun, hr⟩ :=
        run_loadFrom vs (i + 1) { m with values := m.values.set i (some x) } (by simpa using hlt)
      refine ⟨x :: xs, (List.prefix_cons_inj _).mpr hstart, ?_, r, ?_, ?_⟩
      · simpa [Nat.add_assoc, Nat.add_comm 1] using hlength
      · rw [← loaded_set hlt, ← hrun]
        exact run_bind_of_ok (run_storeValue hlt (some x))
      · simpa [Nat.add_assoc, Nat.add_comm 1] using hr
    · -- there is no place for the value
      refine ⟨[], List.nil_prefix, hi, .error (.fault .noIndex), ?_,
        .inr ⟨_, rfl, Nat.zero_lt_succ _, .inl (hi.antisymm hge)⟩⟩
      rw [loaded_nil]
      exact run_bind_of_error (run_storeValue_of_le hge (some x))

theorem ends_loadValues (values : List (Except Error K)) [Bound B] [Scalar K B] : Ends (loadValues values) m
    (fun _ m' => (Call.loadValues values).Done self m m') ((Call.loadValues values).Torn self m) := by
  refine steady_get.ends fun m' hm' => ?_
  cases hm'
  obtain ⟨xs, hstart, hlength, r, hrun, hr⟩ := run_loadFrom (values.take m.decisions.length) 0 m (Nat.zero_le _)
  have hloaded : m.loaded 0 xs = { m with values := xs.map some ++ m.values.drop xs.length } := by
    simp [loaded]
  rw [hloaded] at hrun
  rw [Nat.zero_add] at hlength
  rcases hr with ⟨rfl, hall⟩ | ⟨err, rfl, hlt, hcause⟩
  · refine ends_of_run hrun (.loadValues (hstart.eq_of_length ?_).symm hlength)
    rw [List.length_map, hall]
  · rw [List.length_take, lt_min_iff] at hlt
    rw [Nat.zero_add, List.getElem?_take_of_lt hlt.1] at hcause
    exact ends_of_error hrun (.inr (.loadValues hlt.1 (hstart.trans (List.take_prefix _ _)) hlength
      (hcause.imp_right fun h => ⟨err, h⟩)))

end

/-! ## Constraints, objective and policies -/

section

variable {naming : Naming} {m : Model K B} {self : ModelId}

/-- An oracle is refused where none is allowed. -/
theorem ends_unlessOracle {α : Type} {D : α → Model K B → Prop} {T : Model K B → Prop} {oracle : GivenOracle}
    {text : Edit (Model K B) String} {e : Edit (Model K B) α} (htext : Steady text)
    (he : oracle = none → Ends e m D T) :
    Ends (do
      if oracle.isSome then throw (.oracleNotAllowed (← text))
      e) m D T := by
  split
  next => exact (htext.refuses fun t => refuses_throw _).ends
  next h => exact he (Option.not_isSome_iff_eq_none.mp h)

variable [Bound B] [Scalar K B]

theorem ends_setDefaultOracle (oracle : Except String OracleId) : Ends (setDefaultOracle oracle) m
    (fun _ m' => (Call.setDefaultOracle oracle).Done self m m') ((Call.setDefaultOracle oracle).Torn self m) := by
  cases oracle with
  | error t => exact (refuses_throw _).ends
  | ok o => exact ends_of_run rfl .setDefaultOracle

omit [Bound B] [Scalar K B] in
/-- **Declares decision rules** once all objects have been checked; the parameters that a rule depends on are found once each. -/
theorem ends_setPolicy_of {D T : Model K B → Prop} {adapted : List PolicyObject} {policy : Value} {dependsOn : List PolicyObject}
    (hfixed : ∀ js, PolicyKind.ofValue? policy = some .fixed → List.Forall₂ (m.Adapts self .fixed) adapted js →
      D { m with affine := m.affine.filter fun e => !js.contains e.1 })
    (haffine : ∀ js ks, PolicyKind.ofValue? policy = some .affine → ks.Nodup →
      (∀ k ∈ ks, .parameter { model := self, index := k } ∈ dependsOn) → List.Forall₂ (m.Adapts self .affine) adapted js →
        D { m with affine := js.foldl (fun t j => enterPolicy j ks t) m.affine }) :
    Ends (setPolicy naming self adapted policy dependsOn) m (fun _ => D) T := by
  unfold setPolicy
  cases hpolicy : PolicyKind.ofValue? policy with
  | none => exact (refuses_throw _).ends
  | some kind =>
    refine (steady_policyParameters dependsOn).ends fun ks hks => ?_
    obtain ⟨hnodup, hdepends⟩ := mem_of_run_policyParameters hks
    cases kind with
    | fixed =>
      dsimp only
      split
      next => exact (refuses_throw _).bind.ends
      next =>
        refine (steady_policyVariables .fixed adapted).ends fun js hjs => ?_
        exact ends_of_run rfl (hfixed js hpolicy (adapts_of_run_policyVariables hjs))
    | affine =>
      refine (steady_policyVariables .affine adapted).ends fun js hjs => ?_
      exact ends_of_run rfl (haffine js ks hpolicy hnodup hdepends (adapts_of_run_policyVariables hjs))

theorem ends_setPolicy (adapted : List PolicyObject) (policy : Value) (dependsOn : List PolicyObject) :
    Ends (setPolicy naming self adapted policy dependsOn) m
      (fun _ m' => (Call.setPolicy adapted policy dependsOn).Done self m m')
      ((Call.setPolicy adapted policy dependsOn).Torn self m) :=
  ends_setPolicy_of (fun _ => .setFixed) fun _ _ hpolicy _ => .setAffine hpolicy

variable [Written K]

/-- **Sets the objective:** only its sense may be refused after it was stored. -/
theorem ends_setObjective (q : Except Error (Quantity K)) (sense : Option Sense) :
    Ends (setObjective naming self q sense) m (fun _ m' => (Call.setObjective q sense).Done self m m')
      ((Call.setObjective q sense).Torn self m) := by
  refine (steady_lift q).ends fun q' hq => (steady_objectiveOf q').ends fun e he =>
    (steady_checkOwner (steady_liftFault _)).ends fun _ hown => ?_
  obtain ⟨rfl, -⟩ := run_lift_eq_ok.mp hq
  obtain ⟨rfl, hkind⟩ := eq_of_run_objectiveOf he
  have howned := owned_of_run_checkOwner hown
  cases sense with
  | none =>
    exact ends_of_error (show _ = (_, { m with objective := Quantity.objective q' }) from rfl) (.inr (.setObjective hkind howned))
  | some s => exact ends_of_run rfl (.setObjective hkind howned)

variable [Written B]

theorem ends_addDeterministic {D : Constraint K B → Model K B → Prop} {T : Model K B → Prop} {c : Constraint K B}
    (h : c.kind = .linear → Owned self c.owner → D c { m with constraints := m.constraints ++ [c] }) :
    Ends (addDeterministic naming self (.constraint c)) m D T := by
  unfold addDeterministic
  dsimp only
  split
  next hkind =>
    refine (steady_checkOwner (steady_liftFault _)).ends fun _ hown => ?_
    exact ends_of_run rfl (h hkind (owned_of_run_checkOwner hown))
  next => exact (steady_get.refuses fun m => refuses_throw _).ends

theorem ends_addRobust (hrobust : m.robust = true) (c : ConstraintCandidate K B) (oracle : GivenOracle) :
    Ends (addRobust naming self c oracle) m (fun _ m' => (Call.addConstraint c oracle).Done self m m')
      ((Call.addConstraint c oracle).Torn self m) := by
  cases c with
  | other t text =>
    exact ends_unlessOracle (steady_liftFault _) fun _ => (steady_get.refuses fun m => refuses_throw _).ends
  | constraint c =>
    unfold addRobust
    dsimp only
    split
    next hkind =>
      rcases oracle with - | t | o
      · refine (steady_pure none).ends fun b hb => (steady_checkOwner (steady_liftFault _)).ends fun _ hown => ?_
        cases hb
        exact ends_of_run rfl (.addUncertain (o := none) hrobust hkind (owned_of_run_checkOwner hown))
      · exact ((steady_liftFault _).refuses fun t => refuses_throw _).ends
      · refine (steady_pure (some o)).ends fun b hb => (steady_checkOwner (steady_liftFault _)).ends fun _ hown => ?_
        cases hb
        exact ends_of_run rfl (.addUncertain (o := some o) hrobust hkind (owned_of_run_checkOwner hown))
    next hkind =>
      refine ends_unlessOracle (steady_liftFault _) fun hnone => ?_
      subst hnone
      refine (steady_checkOwner (steady_liftFault _)).ends fun _ hown => ?_
      exact ends_of_run rfl (.addToSet hrobust hkind (owned_of_run_checkOwner hown))
    next =>
      refine ends_unlessOracle (steady_liftFault _) fun hnone => ?_
      exact (ends_addDeterministic fun hkind hown => .addDeterministic (fun _ => hnone) hkind hown).map fun _ _ h => h

theorem ends_addConstraint (c : ConstraintCandidate K B) (oracle : GivenOracle) :
    Ends (addConstraint naming self c oracle) m (fun _ m' => (Call.addConstraint c oracle).Done self m m')
      ((Call.addConstraint c oracle).Torn self m) := by
  refine steady_get.ends fun m' hm' => ?_
  cases hm'
  split
  next hrobust => exact ends_addRobust hrobust c oracle
  next hrobust =>
    cases c with
    | other t text => exact (steady_get.refuses fun m => refuses_throw _).bind.ends
    | constraint c =>
      exact (ends_addDeterministic fun hkind hown =>
        .addDeterministic (fun h => absurd h hrobust) hkind hown).map fun _ _ h => h

/-! ## All calls -/

/-- The operation that a call stands for, on the model of a number; what it answers is left out. -/
def Call.edit (naming : Naming) (self : ModelId) : Call K B → Edit (Model K B) Unit
  | .addVariable d => discard (Model.addVariable d)
  | .addVariables n d => discard (Model.addVariables n { d with value := none })
  | .addParameter d => discard (Model.addParameter d)
  | .addParameters n d => discard (Model.addParameters n d)
  | .renameVariable i name => Model.renameVariable i name
  | .renameParameter k name => Model.renameParameter k name
  | .setLower i b => Model.setLower i b
  | .setUpper i b => Model.setUpper i b
  | .setParameterLower k b => Model.setParameterLower k b
  | .setParameterUpper k b => Model.setParameterUpper k b
  | .setValue i value => Model.setValue i value
  | .loadValues values => Model.loadValues values
  | .addConstraint c oracle => discard (Model.addConstraint naming self c oracle)
  | .setObjective q sense => Model.setObjective naming self q sense
  | .setDefaultOracle oracle => Model.setDefaultOracle oracle
  | .setPolicy adapted policy dependsOn => Model.setPolicy naming self adapted policy dependsOn

/-- **All that a call can do:** it leaves what `Done` says, or fails and leaves the model as it was, up to what `Torn` says. -/
theorem Call.ends (naming : Naming) (self : ModelId) (m : Model K B) (c : Call K B) :
    Ends (c.edit naming self) m (fun _ m' => c.Done self m m') (c.Torn self m) := by
  cases c with
  | addVariable d => exact (ends_addVariable d).map fun _ _ h => h.2
  | addVariables n d => exact (ends_addVariables n d).map fun _ _ h => h
  | addParameter d => exact (ends_addParameter d).map fun _ _ h => h.2
  | addParameters n d => exact (ends_addParameters n d).map fun _ _ h => h
  | renameVariable i name => exact ends_of_run rfl .renameVariable
  | renameParameter k name => exact ends_of_run rfl .renameParameter
  | setLower i b => exact ends_setLower i b
  | setUpper i b => exact ends_setUpper i b
  | setParameterLower k b => exact ends_setParameterLower k b
  | setParameterUpper k b => exact ends_setParameterUpper k b
  | setValue i value => exact ends_setValue i value
  | loadValues values => exact ends_loadValues values
  | addConstraint c oracle => exact (ends_addConstraint c oracle).map fun _ _ h => h
  | setObjective q sense => exact ends_setObjective q sense
  | setDefaultOracle oracle => exact ends_setDefaultOracle oracle
  | setPolicy adapted policy dependsOn => exact ends_setPolicy adapted policy dependsOn

/-! ## Models that are reached -/

/-- **The models that calls lead to,** where each call meets a condition on the model before and itself. -/
inductive Reached (self : ModelId) (P : Model K B → Call K B → Prop) : Model K B → Prop
  | start (name : String) (robust : Bool) (oracle : OracleId) : Reached self P (empty name robust oracle)
  | call {m : Model K B} (naming : Naming) (c : Call K B) : Reached self P m → P m c →
    Reached self P ((c.edit naming self).run m).2

/-- **What a model has at first and no call takes away** holds of all models that are reached. -/
theorem Reached.induct {P : Model K B → Call K B → Prop} {I : Model K B → Prop}
    (hstart : ∀ name robust oracle, I (empty name robust oracle))
    (hdone : ∀ m c m', I m → P m c → c.Done self m m' → I m')
    (htorn : ∀ m c m', I m → P m c → c.Torn self m m' → I m') (h : m.Reached self P) : I m := by
  induction h with
  | start name robust oracle => exact hstart name robust oracle
  | @call m naming c _ hP ih =>
    have hends := c.ends naming self m
    rcases hrun : (c.edit naming self).run m with ⟨r, m'⟩
    cases r with
    | ok a => exact hdone m c m' ih hP (hends.done a m' hrun)
    | error err =>
      rcases hends.failed err m' hrun with rfl | htorn'
      · exact ih
      · exact htorn m c m' ih hP htorn'

end

end Model

end RobustLP
