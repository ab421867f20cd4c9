import HybroidSema.Proofs.Outline
import HybroidSema.Proofs.Run
import Mathlib.Logic.Relation

/-!
# What a check can do

Whatever a check does, it does in steps of a few kinds: it reports an alert, it changes the scopes
of its own environment, it records a requirement, it has another environment walked. `Check.Step`
lists them with the conditions under which they are taken. A property that every step keeps is
kept by every check, however deep the tree.

* `Session.Keeps`: what walking other environments leaves alone.
* `Check.Edit`: the changes of the own environment, and the phase in which each may happen.
* `Check.Ensures`: what comes of asking for another environment.
* `Check.Step`, `Check.Steps` and `Check.Route`: the steps, and runs of steps. Once the imports of a program are
  recorded, a requirement is never recorded without asking for its environment.
* `Check.Live`: the own environment is being walked, and its scopes have a given outline. In a
  live state no operation on the own environment fails.
* `Check.Quiet`: a check that runs from every live state in steps and keeps the outline.

The rules at the end build quiet checks from quiet checks. A check inside a scope of its
own has the rule `runs_inScope`, which tells the outline after the scope is closed.
-/

namespace HybroidSema

theorem Registry.get?_of_envs_eq {r r' : Registry} (h : r'.envs = r.envs) (id : EnvId) :
    r'.get? id = r.get? id := by
  simp only [get?, h]

@[simp] theorem Registry.envs_markCycle (r : Registry) (a b : EnvId) :
    (r.markCycle a b).envs = r.envs := by
  unfold markCycle
  split <;> rfl

theorem Environment.lacksRequirement_require (e : Environment) (target : EnvId) :
    (e.require target).lacksRequirement target = false := by
  unfold require
  split
  · simp [lacksRequirement]
  · next h => simpa using h

/-- Whether an alert reports an import cycle. -/
def AlertKind.isImportCycle : AlertKind → Bool
  | .importCycle _ => true
  | _ => false

/-- Whether an alert reports a path without an exit. -/
def AlertKind.isMissingExit : AlertKind → Bool
  | .notAllCodePathsExit _ => true
  | _ => false

/-- Whether an alert is about how often an entity declares a lifecycle function. -/
def AlertKind.isLifecycleCount : AlertKind → Bool
  | .multipleEntityFunctions _ _ | .missingEntityFunction _ _ => true
  | _ => false

/-- Whether an alert reports a field that is never assigned. -/
def AlertKind.isUninitialized : AlertKind → Bool
  | .uninitializedField _ => true
  | _ => false

/-- The environment is as it was registered. -/
def Environment.IsNew (e : Environment) : Prop :=
  e = { id := e.id, path := e.path, name := e.name, kind := e.kind }

/-- Every environment that waits to be walked is as it was registered. -/
def Session.WaitsNew (s : Session) : Prop :=
  ∀ id env, s.registry.get? id = some env → env.state = .notWalked → env.IsNew

/-- What walking other environments leaves alone: the settings, every environment that was started
before, and every one that still waits. -/
structure Session.Keeps (s s' : Session) : Prop where
  config : s'.config = s.config
  started : ∀ id env, s.registry.get? id = some env → env.state ≠ .notWalked →
    s'.registry.get? id = some env
  waiting : ∀ id env, s'.registry.get? id = some env → env.state = .notWalked →
    s.registry.get? id = some env

theorem Session.Keeps.refl (s : Session) : s.Keeps s :=
  ⟨rfl, fun _ _ h _ => h, fun _ _ h _ => h⟩

theorem Session.Keeps.waitsNew {s s' : Session} (h : s.Keeps s') (hs : s.WaitsNew) :
    s'.WaitsNew :=
  fun id env he hwaits => hs id env (h.waiting id env he hwaits) hwaits

/-- One alert more, of those of some kinds. -/
theorem Diagnostics.filter_push (d : Diagnostics) (a : Alert) (test : AlertKind → Bool) :
    (d.push a).alerts.filter (test ·.kind) =
      d.alerts.filter (test ·.kind) ++ if test a.kind then [a] else [] := by
  simp only [Diagnostics.push, List.filter_append, List.filter_cons, List.filter_nil]

namespace Check

variable {α β : Type} {m : Check α} {c : Context} {s s' : State} {o : ScopeStack}

/-! ## Steps -/

/-- The environment that a check works for. -/
def State.own? (c : Context) (s : State) : Option Environment := s.session.registry.get? c.env

/-- The state with the own environment changed. -/
def State.modifyOwn (c : Context) (f : Environment → Environment) (s : State) : State :=
  { s with session := { s.session with registry := s.session.registry.modify c.env f } }

/-- The state with alerts added. -/
def State.addAlerts (s : State) (added : List Alert) : State :=
  { s with alerts := ⟨s.alerts.alerts ++ added⟩ }

@[simp] theorem State.addAlerts_nil (s : State) : s.addAlerts [] = s := by
  simp [addAlerts]

@[simp] theorem State.addAlerts_addAlerts (s : State) (first second : List Alert) :
    (s.addAlerts first).addAlerts second = s.addAlerts (first ++ second) := by
  simp [addAlerts]

@[simp] theorem State.own?_addAlerts (s : State) (added : List Alert) :
    (s.addAlerts added).own? c = s.own? c := rfl

@[simp] theorem State.alerts_addAlerts (s : State) (added : List Alert) :
    (s.addAlerts added).alerts.alerts = s.alerts.alerts ++ added := rfl

theorem alert_eq (a : Alert) : alert a c s = .ok ((), s.addAlerts [a]) := rfl

theorem report_eq (kind : AlertKind) (span : Span) :
    report kind span c s = .ok ((), s.addAlerts [{ kind := kind, span := span }]) := rfl

/-- The own environment imports another one. -/
def State.Imports (c : Context) (s : State) (target : EnvId) : Prop :=
  ∃ env, s.own? c = some env ∧ target ∈ env.imports

/-- No declared type of the own environment has the name. -/
def State.IsFree (c : Context) (s : State) (name : String) : Prop :=
  ∀ env, s.own? c = some env → env.declaredSpan? name = none

/-- The phases of a walk: imports are recorded, types claim their names, aliases are resolved,
members are registered, and then functions are bound and bodies are checked. Inside the last, what
is done at one node is a phase of its own, in which no missing exit is reported, and so is what binds
and reads variables without touching the narrowings of a condition, and what an expression without
bodies does, which only looks at variables. -/
inductive Phase where
  | importing
  | claiming
  | resolving
  | declaring
  | binding
  | visiting
  | checking
  | looking

/-- What a phase leaves alone in the root scope. Only while bodies are checked are variables bound
there, and then too they stay as they were declared. What only looks at variables changes nothing but
which of them were read. -/
def Phase.KeepsRoot : Phase → ScopeStack → ScopeStack → Prop
  | .looking, s, s' => s'.unread = s.unread
  | .binding, s, s' | .visiting, s, s' | .checking, s, s' => s.KeepsRoot s'
  | .importing, s, s' | .claiming, s, s' | .resolving, s, s' | .declaring, s, s' =>
    s'.root.bindings = s.root.bindings

/-- The phases in which scopes are opened, imports are added and fields are refined. -/
class Phase.Opens (phase : Phase) : Prop where
  ne : phase ≠ .looking

instance : Phase.importing.Opens := ⟨by simp⟩

instance : Phase.claiming.Opens := ⟨by simp⟩

instance : Phase.resolving.Opens := ⟨by simp⟩

instance : Phase.declaring.Opens := ⟨by simp⟩

theorem Phase.KeepsRoot.of_bindings_eq {s s' : ScopeStack} (phase : Phase) [hphase : phase.Opens]
    (h : s'.root.bindings = s.root.bindings) : phase.KeepsRoot s s' := by
  cases phase with
  | looking => exact absurd rfl hphase.ne
  | binding => exact ScopeStack.KeepsRoot.of_bindings_eq h
  | visiting => exact ScopeStack.KeepsRoot.of_bindings_eq h
  | checking => exact ScopeStack.KeepsRoot.of_bindings_eq h
  | _ => exact h

theorem Phase.KeepsRoot.refl (phase : Phase) (s : ScopeStack) : phase.KeepsRoot s s := by
  cases phase with
  | binding => exact ScopeStack.KeepsRoot.of_bindings_eq rfl
  | visiting => exact ScopeStack.KeepsRoot.of_bindings_eq rfl
  | checking => exact ScopeStack.KeepsRoot.of_bindings_eq rfl
  | _ => rfl

/-- The phases in which variables are looked at. -/
class Phase.Looks (phase : Phase) : Prop where
  keepsUnread {s s' : ScopeStack} (h : s'.unread = s.unread) : phase.KeepsRoot s s'

instance : Phase.looking.Looks := ⟨id⟩

/-- The phases in which variables are bound. -/
class Phase.Binds (phase : Phase) : Prop extends phase.Opens, phase.Looks where
  keepsRoot {s s' : ScopeStack} (h : s.KeepsRoot s') : phase.KeepsRoot s s'
  keepsUnread h := keepsRoot (ScopeStack.keepsRoot_of_unread_eq h)

instance : Phase.binding.Binds where
  ne := by simp
  keepsRoot := id

instance : Phase.visiting.Binds where
  ne := by simp
  keepsRoot := id

instance : Phase.checking.Binds where
  ne := by simp
  keepsRoot := id

/-- Whether narrowings are collected and taken in a phase. -/
def Phase.narrows : Phase → Bool
  | .visiting | .checking | .looking => true
  | .importing | .claiming | .resolving | .declaring | .binding => false

/-- The phases in which narrowings are collected. -/
class Phase.Collects (phase : Phase) : Prop where
  narrows : phase.narrows = true

instance : Phase.looking.Collects := ⟨rfl⟩

/-- The phases in which narrowings are collected and taken. Variables are bound there too. -/
class Phase.Narrows (phase : Phase) : Prop extends phase.Binds, phase.Collects

instance : Phase.visiting.Narrows where
  narrows := rfl

instance : Phase.checking.Narrows where
  narrows := rfl

/-- Whether missing exits are reported in a phase. -/
def Phase.endsBodies : Phase → Bool
  | .checking => true
  | .importing | .claiming | .resolving | .declaring | .binding | .visiting | .looking => false

/-- Whether lifecycle functions are counted in a phase. -/
def Phase.registers : Phase → Bool
  | .resolving | .declaring | .looking => true
  | .importing | .claiming | .binding | .visiting | .checking => false

/-- Whether it is checked in a phase that fields are assigned. -/
def Phase.checksFields : Phase → Bool
  | .visiting | .checking => true
  | .importing | .claiming | .resolving | .declaring | .binding | .looking => false

/-- The phases in which lifecycle functions are counted. -/
class Phase.Registers (phase : Phase) : Prop where
  registers : phase.registers = true

instance : Phase.resolving.Registers := ⟨rfl⟩

instance : Phase.declaring.Registers := ⟨rfl⟩

instance : Phase.looking.Registers := ⟨rfl⟩

/-- The phases in which it is checked that fields are assigned. -/
class Phase.ChecksFields (phase : Phase) : Prop where
  checksFields : phase.checksFields = true

instance : Phase.visiting.ChecksFields := ⟨rfl⟩

instance : Phase.checking.ChecksFields := ⟨rfl⟩

/-- The alerts that are reported in a phase. Import cycles are reported together with their marks,
missing exits only at the end of a body, the count of lifecycle functions only where they are
registered, and fields that are never assigned only where bodies are checked. -/
def Phase.reports (phase : Phase) (kind : AlertKind) : Bool :=
  !kind.isImportCycle && (!kind.isMissingExit || phase.endsBodies) &&
    (!kind.isLifecycleCount || phase.registers) && (!kind.isUninitialized || phase.checksFields)

theorem Phase.isImportCycle_of_reports {phase : Phase} {kind : AlertKind}
    (h : phase.reports kind = true) : kind.isImportCycle = false := by
  simp only [reports, Bool.and_eq_true, Bool.not_eq_true'] at h
  exact h.1.1.1

theorem Phase.isMissingExit_of_reports {phase : Phase} {kind : AlertKind}
    (hphase : phase.endsBodies = false) (h : phase.reports kind = true) :
    kind.isMissingExit = false := by
  simp only [reports, hphase, Bool.or_false, Bool.and_eq_true, Bool.not_eq_true'] at h
  exact h.1.1.2

theorem Phase.isLifecycleCount_of_reports {phase : Phase} {kind : AlertKind}
    (hphase : phase.registers = false) (h : phase.reports kind = true) :
    kind.isLifecycleCount = false := by
  simp only [reports, hphase, Bool.or_false, Bool.and_eq_true, Bool.not_eq_true'] at h
  exact h.1.2

theorem Phase.isUninitialized_of_reports {phase : Phase} {kind : AlertKind}
    (hphase : phase.checksFields = false) (h : phase.reports kind = true) :
    kind.isUninitialized = false := by
  simp only [reports, hphase, Bool.or_false, Bool.and_eq_true, Bool.not_eq_true'] at h
  exact h.2

theorem Phase.reports_uninitializedField (phase : Phase) [hphase : phase.ChecksFields]
    (field : String) : phase.reports (.uninitializedField field) = true := by
  simp [reports, AlertKind.isImportCycle, AlertKind.isMissingExit, AlertKind.isLifecycleCount,
    hphase.checksFields]

theorem Phase.reports_multipleEntityFunctions (phase : Phase) [hphase : phase.Registers]
    (entity function : String) : phase.reports (.multipleEntityFunctions entity function) = true := by
  simp [reports, AlertKind.isImportCycle, AlertKind.isMissingExit, AlertKind.isUninitialized,
    hphase.registers]

theorem Phase.reports_missingEntityFunction (phase : Phase) [hphase : phase.Registers]
    (entity function : String) : phase.reports (.missingEntityFunction entity function) = true := by
  simp [reports, AlertKind.isImportCycle, AlertKind.isMissingExit, AlertKind.isUninitialized,
    hphase.registers]

/-- What a check changes in its own environment. Scopes, requirements, imports and the values of
fields change at any time, but never what a variable of the root scope was declared as; the tables
of declared types change only while declarations are registered, and a name is claimed only once. -/
inductive Edit (c : Context) (phase : Phase) (s : State) : (Environment → Environment) → Prop
  | scopes (f : ScopeStack → ScopeStack)
      (h : ∀ env, s.own? c = some env → phase.KeepsRoot env.scopes (f env.scopes)) :
    Edit c phase s fun env => { env with scopes := f env.scopes }
  | require (target : EnvId) (h : s.session.registry.accessError? c.env target = none)
      (named : ∃ name, s.session.registry.lookup? name = some target) :
    Edit c phase s (·.require target)
  | addImport (target : EnvId) (h : phase ≠ .looking) (other : target ≠ c.env)
      (required : ∀ env, s.own? c = some env → env.lacksRequirement target = false) :
    Edit c phase s (·.addImport target)
  | setField (kind : NamedKind) (container field : String) (value : Value) (h : phase ≠ .looking) :
    Edit c phase s (·.modifyMembers kind container (·.setField field value))
  | claimClass (name : String) (info : ClassInfo) (h : phase = .claiming) (free : s.IsFree c name) :
    Edit c phase s fun env => { env with classes := env.classes.insert name info }
  | claimEntity (name : String) (info : EntityInfo) (h : phase = .claiming)
      (free : s.IsFree c name) :
    Edit c phase s fun env => { env with entities := env.entities.insert name info }
  | claimEnum (name : String) (info : EnumInfo) (h : phase = .claiming) (free : s.IsFree c name) :
    Edit c phase s fun env => { env with enums := env.enums.insert name info }
  | claimAlias (name : String) (info : AliasInfo) (h : phase = .claiming) (free : s.IsFree c name) :
    Edit c phase s fun env => { env with aliases := env.aliases.insert name info }
  | fillClass (name : String) (f : ClassInfo → ClassInfo) (h : phase = .declaring)
      (kept : ∀ info, (f info).isPub = info.isPub) :
    Edit c phase s fun env => { env with classes := env.classes.modify name f }
  | fillEntity (name : String) (f : EntityInfo → EntityInfo) (h : phase = .declaring)
      (kept : ∀ info, (f info).isPub = info.isPub) :
    Edit c phase s fun env => { env with entities := env.entities.modify name f }
  | fillAlias (name : String) (ty : Ty) (h : phase = .resolving) :
    Edit c phase s fun env =>
      { env with aliases := env.aliases.modify name fun info => { info with ty := ty } }

/-- The state after a cycle is reported. -/
def State.reportCycle (c : Context) (target : EnvId) (cycle : List EnvId) (span : Span)
    (s : State) : State :=
  let kind := AlertKind.importCycle (cycle.map s.session.registry.nameOf)
  { s with
    session := { s.session with registry := s.session.registry.markCycle c.env target }
    alerts := s.alerts.push { kind := kind, span := span } }

/-- What comes of asking for an environment: if it requires this one that is reported, unless it
was before, and otherwise it is walked, unless it was started before. -/
inductive Ensures (c : Context) (target : EnvId) (s : State) : State → Prop
  | exempt (h : target.isLibrary = true ∨ target = c.env) : Ensures c target s s
  | report (cycle : List EnvId) (span : Span) (hne : target ≠ c.env)
      (found : s.session.registry.findCycle? c.env target = some cycle)
      (fresh : s.session.registry.lacksCycle c.env target = true) :
    Ensures c target s (s.reportCycle c target cycle span)
  | reported (cycle : List EnvId) (hne : target ≠ c.env)
      (found : s.session.registry.findCycle? c.env target = some cycle)
      (known : s.session.registry.lacksCycle c.env target = false) : Ensures c target s s
  | started (hne : target ≠ c.env) (acyclic : s.session.registry.findCycle? c.env target = none)
      (h : ∀ env, s.session.registry.get? target = some env → env.state ≠ .notWalked) :
    Ensures c target s s
  | walk (result : Option CompileError) (session : Session) (hne : target ≠ c.env)
      (acyclic : s.session.registry.findCycle? c.env target = none)
      (waiting : ∃ env, s.session.registry.get? target = some env ∧ env.state = .notWalked)
      (h : c.walk target s.session = .ok (result, session)) :
    Ensures c target s { s with session := session, fatal := s.fatal <|> result }

/-- One step of a check. Requirements are recorded on their own while imports are recorded, and
later only together with what comes of asking for the environment. -/
inductive Step (c : Context) (phase : Phase) : State → State → Prop
  | alert (s : State) (a : Alert) (h : phase.reports a.kind = true) :
    Step c phase s { s with alerts := s.alerts.push a }
  | narrow (s : State) (narrowings : List Narrowing) (h : phase.narrows = true) :
    Step c phase s { s with narrowings := narrowings }
  | fail (s : State) (container member : String) :
    Step c phase s { s with fatal := s.fatal <|> some (.unregisteredContainer container member) }
  | invent (s : State) (stem : String) :
    Step c phase s { s with session := (s.session.syntheticName stem).2 }
  | edit (s : State) (f : Environment → Environment) (h : Edit c phase s f)
      (kept : phase = .importing ∨ ∀ env, (f env).requirements = env.requirements) :
    Step c phase s (s.modifyOwn c f)
  | ensure {s s' : State} (target : EnvId) (imported : s.Imports c target)
      (h : Ensures c target s s') : Step c phase s s'
  | link {s s' : State} (target : EnvId)
      (allowed : s.session.registry.accessError? c.env target = none)
      (named : ∃ name, s.session.registry.lookup? name = some target)
      (h : Ensures c target (s.modifyOwn c (·.require target)) s') : Step c phase s s'

/-- A run of steps. -/
abbrev Steps (c : Context) (phase : Phase) : State → State → Prop :=
  Relation.ReflTransGen (Step c phase)

/-- What is done at one node is done while bodies are checked. -/
theorem Edit.checking {f : Environment → Environment} (h : Edit c .visiting s f) :
    Edit c .checking s f := by
  cases h with
  | scopes f h => exact .scopes f h
  | require target h named => exact .require target h named
  | addImport target _ other required => exact .addImport target Phase.Opens.ne other required
  | setField kind container field value => exact .setField kind container field value Phase.Opens.ne
  | claimClass _ _ h | claimEntity _ _ h | claimEnum _ _ h | claimAlias _ _ h
  | fillClass _ _ h | fillEntity _ _ h | fillAlias _ _ h => cases h

theorem Step.checking (h : Step c .visiting s s') : Step c .checking s s' := by
  cases h with
  | alert a h =>
    refine .alert s a ?_
    simp only [Phase.reports, Bool.and_eq_true] at h ⊢
    exact ⟨⟨⟨h.1.1.1, Bool.or_true _⟩, h.1.2⟩, h.2⟩
  | narrow narrowings h => exact .narrow s narrowings rfl
  | fail container member => exact .fail s container member
  | invent stem => exact .invent s stem
  | edit f h kept => exact .edit s f h.checking (.inr (kept.resolve_left (by simp)))
  | ensure target imported h => exact .ensure target imported h
  | link target allowed named h => exact .link target allowed named h

theorem Steps.checking (h : Steps c .visiting s s') : Steps c .checking s s' :=
  h.lift id fun _ _ hstep => hstep.checking

/-- A run of steps of any phases. -/
abbrev Route (c : Context) : State → State → Prop :=
  Relation.ReflTransGen fun s s' => ∃ phase, Step c phase s s'

theorem Steps.route {phase : Phase} (h : Steps c phase s s') : Route c s s' :=
  h.lift id fun _ _ hstep => ⟨phase, hstep⟩

/-- Walking another environment succeeds and leaves started environments alone. -/
def Framing (walk : EnvId → Session → Except CompileError (Option CompileError × Session)) :
    Prop :=
  ∀ target (s : Session), s.WaitsNew → ∃ result s', walk target s = .ok (result, s') ∧ s.Keeps s'

/-- The own environment is being walked, and its scopes have the outline. -/
structure Live (c : Context) (s : State) (o : ScopeStack) : Prop where
  own : ∃ env, s.own? c = some env ∧ env.state ≠ .notWalked ∧ env.scopes.outline = o
  waitsNew : s.session.WaitsNew
  framing : Framing c.walk

/-- A check that runs from every live state, in steps, and keeps the outline of the scopes. -/
def Quiet (phase : Phase) (m : Check α) : Prop :=
  ∀ c s o, Live c s o → Runs m c s fun _ s' => Steps c phase s s' ∧ Live c s' o

/-! ## Live states -/

/-- A change of everything but the environments. -/
theorem Live.of_envs_eq (h : Live c s o)
    (henvs : s'.session.registry.envs = s.session.registry.envs) : Live c s' o := by
  have hget := Registry.get?_of_envs_eq henvs
  obtain ⟨env, he, hs, ho⟩ := h.own
  exact ⟨⟨env, (hget _).trans he, hs, ho⟩, fun id env he => h.waitsNew id env (hget id ▸ he),
    h.framing⟩

theorem own?_modifyOwn (c : Context) (f : Environment → Environment) (s : State) :
    (s.modifyOwn c f).own? c = (s.own? c).map f :=
  Registry.get?_modify_self _ _ _

/-- A change of the own environment, with what it does to the outline. -/
theorem Live.modifyOwn {o' : ScopeStack} {f : Environment → Environment} (h : Live c s o)
    (hf : ∀ env, s.own? c = some env → env.scopes.outline = o →
      (f env).state = env.state ∧ (f env).scopes.outline = o') :
    Live c (s.modifyOwn c f) o' := by
  obtain ⟨env, he, hs, ho⟩ := h.own
  obtain ⟨hstate, hout⟩ := hf env he ho
  have hown : (s.modifyOwn c f).own? c = some (f env) := by rw [own?_modifyOwn, he]; rfl
  refine ⟨⟨f env, hown, by rwa [hstate], hout⟩, fun id other hother hwaits => ?_, h.framing⟩
  by_cases hid : id = c.env
  · subst hid
    obtain rfl : f env = other := Option.some.inj (hown.symm.trans hother)
    exact absurd (hstate ▸ hwaits) hs
  · exact h.waitsNew id other ((Registry.get?_modify_ne _ f hid) ▸ hother) hwaits

/-- The own environment is registered under the handle of the check, so nothing that reads or
changes it fails. -/
theorem Live.registered (h : Live c s o) :
    ∃ env, s.session.registry.get c.env = .ok env ∧ s.own? c = some env ∧
      env.scopes.outline = o := by
  obtain ⟨env, he, _, ho⟩ := h.own
  have hget : s.session.registry.get? c.env = some env := he
  exact ⟨env, by rw [Registry.get, hget], he, ho⟩

/-! ## What steps leave alone -/

/-- What the steps of a check leave alone: the settings, and every other environment that was
started before or still waits. -/
structure State.Frames (c : Context) (s s' : State) : Prop where
  config : s'.session.config = s.session.config
  started : ∀ id env, id ≠ c.env → s.session.registry.get? id = some env →
    env.state ≠ .notWalked → s'.session.registry.get? id = some env
  waiting : ∀ id env, s'.session.registry.get? id = some env → env.state = .notWalked →
    s.session.registry.get? id = some env

theorem State.Frames.of_envs_eq (hconfig : s'.session.config = s.session.config)
    (henvs : s'.session.registry.envs = s.session.registry.envs) : s.Frames c s' := by
  have hget := Registry.get?_of_envs_eq henvs
  exact ⟨hconfig, fun id env _ he _ => (hget id).trans he, fun id env he _ => (hget id) ▸ he⟩

theorem State.Frames.trans {u : State} (h : s.Frames c s') (h' : s'.Frames c u) : s.Frames c u :=
  ⟨h'.config.trans h.config,
    fun id env hne he hs => h'.started id env hne (h.started id env hne he hs) hs,
    fun id env he hw => h.waiting id env (h'.waiting id env he hw) hw⟩

theorem Edit.state_eq {phase : Phase} {f : Environment → Environment} (h : Edit c phase s f)
    (env : Environment) : (f env).state = env.state := by
  cases h with
  | require =>
    simp only [Environment.require]
    split <;> rfl
  | addImport =>
    simp only [Environment.addImport]
    split <;> rfl
  | setField =>
    simp only [Environment.modifyMembers]
    split <;> rfl
  | _ => rfl

/-- The result of walking another environment from a live state. -/
theorem Live.keeps_walk (h : Live c s o) {target : EnvId} {result : Option CompileError}
    {session : Session} (hrun : c.walk target s.session = .ok (result, session)) :
    s.session.Keeps session := by
  obtain ⟨result', session', hrun', hkeeps⟩ := h.framing target s.session h.waitsNew
  obtain ⟨-, rfl⟩ : result = result' ∧ session = session' := by
    rw [hrun] at hrun'
    simpa using hrun'
  exact hkeeps

/-- Asking for another environment leaves the own one as it is. -/
theorem Ensures.frames {target : EnvId} (h : Live c s o) (hensures : Ensures c target s s') :
    s.Frames c s' ∧ Live c s' o ∧ s'.own? c = s.own? c := by
  cases hensures with
  | report cycle span =>
    have henvs := s.session.registry.envs_markCycle c.env target
    exact ⟨.of_envs_eq rfl henvs, h.of_envs_eq henvs, Registry.get?_of_envs_eq henvs c.env⟩
  | walk result session _ _ _ hrun =>
    have hkeeps := h.keeps_walk hrun
    obtain ⟨env, he, hs, ho⟩ := h.own
    have hown := hkeeps.started _ env he hs
    exact ⟨⟨hkeeps.config, fun id env _ => hkeeps.started id env, hkeeps.waiting⟩,
      ⟨⟨env, hown, hs, ho⟩, hkeeps.waitsNew h.waitsNew, h.framing⟩, hown.trans he.symm⟩
  | _ => exact ⟨.of_envs_eq rfl rfl, h, rfl⟩

/-- A change of the own environment leaves the others alone. -/
theorem Edit.frames {phase : Phase} {f : Environment → Environment} (h : Live c s o)
    (hedit : Edit c phase s f) : s.Frames c (s.modifyOwn c f) ∧ ∃ o', Live c (s.modifyOwn c f) o' := by
  obtain ⟨own, hown, hs, _⟩ := h.own
  have hlive : Live c (s.modifyOwn c f) (f own).scopes.outline :=
    h.modifyOwn fun env he _ => by
      obtain rfl : own = env := Option.some.inj (hown.symm.trans he)
      exact ⟨hedit.state_eq own, rfl⟩
  refine ⟨⟨rfl, fun id env hne he _ => ?_, fun id env he hwaits => ?_⟩, _, hlive⟩
  · exact (Registry.get?_modify_ne _ f hne).trans he
  · by_cases hid : id = c.env
    · subst hid
      have hget := own?_modifyOwn c f s
      rw [hown] at hget
      obtain rfl : f own = env := Option.some.inj (hget.symm.trans he)
      exact absurd (hedit.state_eq own ▸ hwaits) hs
    · exact (Registry.get?_modify_ne _ f hid) ▸ he

/-- One step from a live state. -/
theorem Step.frames {phase : Phase} (h : Live c s o) (hstep : Step c phase s s') :
    s.Frames c s' ∧ ∃ o', Live c s' o' := by
  cases hstep with
  | edit f hedit => exact hedit.frames h
  | ensure target _ hensures =>
    obtain ⟨hframes, hl, -⟩ := hensures.frames h
    exact ⟨hframes, o, hl⟩
  | link target allowed named hensures =>
    have hedit : Edit c phase s (·.require target) := .require target allowed named
    obtain ⟨hrequired, o', hl⟩ := hedit.frames h
    obtain ⟨hframes, hl', -⟩ := hensures.frames hl
    exact ⟨hrequired.trans hframes, o', hl'⟩
  | _ => exact ⟨.of_envs_eq rfl rfl, o, h.of_envs_eq rfl⟩

/-- A route from a live state. -/
theorem Route.frames (h : Live c s o) (hroute : Route c s s') :
    s.Frames c s' ∧ ∃ o', Live c s' o' := by
  induction hroute with
  | refl => exact ⟨.of_envs_eq rfl rfl, o, h⟩
  | tail _ hstep ih =>
    obtain ⟨hframes, o', hl⟩ := ih
    obtain ⟨phase, hstep⟩ := hstep
    obtain ⟨hframe, hl'⟩ := hstep.frames hl
    exact ⟨hframes.trans hframe, hl'⟩

/-- A run of steps from a live state. -/
theorem Steps.frames {phase : Phase} (h : Live c s o) (hsteps : Steps c phase s s') :
    s.Frames c s' ∧ ∃ o', Live c s' o' :=
  Route.frames h hsteps.route

/-- What every step keeps, a route keeps. -/
theorem Route.keeps {I : State → Prop} (h : Live c s o) (hroute : Route c s s')
    (hstep : ∀ t u o phase, Live c t o → Step c phase t u → I t → I u) (hs : I s) : I s' := by
  induction hroute with
  | refl => exact hs
  | tail hbefore hlast ih =>
    obtain ⟨-, o', hl⟩ := Route.frames h hbefore
    obtain ⟨phase, hlast⟩ := hlast
    exact hstep _ _ o' phase hl hlast ih

/-- One step changes the own environment by an edit, if at all. -/
theorem Step.own_cases {phase : Phase} (h : Live c s o) (hstep : Step c phase s s')
    {env : Environment} (hown : s.own? c = some env) :
    s'.own? c = some env ∨ ∃ f, Edit c phase s f ∧ s'.own? c = some (f env) := by
  have hedited (f : Environment → Environment) : (s.modifyOwn c f).own? c = some (f env) := by
    rw [own?_modifyOwn, hown]
    rfl
  cases hstep with
  | edit f hedit => exact .inr ⟨f, hedit, hedited f⟩
  | ensure target _ hensures =>
    obtain ⟨-, -, hsame⟩ := hensures.frames h
    exact .inl (hsame.trans hown)
  | link target allowed named hensures =>
    have hedit : Edit c phase s (·.require target) := .require target allowed named
    obtain ⟨-, o', hl⟩ := hedit.frames h
    obtain ⟨-, -, hsame⟩ := hensures.frames hl
    exact .inr ⟨_, hedit, hsame.trans (hedited _)⟩
  | _ => exact .inl hown

/-- What every edit of the own environment keeps, a run of steps keeps. -/
theorem Steps.own_keeps {phase : Phase} {I : Environment → Prop} (h : Live c s o)
    (hsteps : Steps c phase s s')
    (hedit : ∀ t f env, Edit c phase t f → t.own? c = some env → I env → I (f env))
    {env : Environment} (hown : s.own? c = some env) (henv : I env) :
    ∃ env', s'.own? c = some env' ∧ I env' := by
  induction hsteps with
  | refl => exact ⟨env, hown, henv⟩
  | tail hbefore hstep ih =>
    obtain ⟨env₁, hown₁, henv₁⟩ := ih
    obtain ⟨-, o₁, hl₁⟩ := Steps.frames h hbefore
    rcases hstep.own_cases hl₁ hown₁ with hsame | ⟨f, hf, hchanged⟩
    · exact ⟨env₁, hsame, henv₁⟩
    · exact ⟨f env₁, hchanged, hedit _ f env₁ hf hown₁ henv₁⟩

theorem Edit.mem_imports {phase : Phase} {f : Environment → Environment} (h : Edit c phase s f)
    {env : Environment} {target : EnvId} (htarget : target ∈ env.imports) :
    target ∈ (f env).imports := by
  cases h with
  | require =>
    simp only [Environment.require]
    split <;> exact htarget
  | addImport =>
    simp only [Environment.addImport]
    split
    · exact List.mem_append_left _ htarget
    · exact htarget
  | setField =>
    simp only [Environment.modifyMembers]
    split <;> exact htarget
  | _ => exact htarget

/-- Imports are only ever added. -/
theorem Steps.imports {phase : Phase} (h : Live c s o) (hsteps : Steps c phase s s')
    {target : EnvId} (himports : s.Imports c target) : s'.Imports c target := by
  obtain ⟨env, hown, htarget⟩ := himports
  exact Steps.own_keeps h hsteps (fun _ _ _ hf _ => hf.mem_imports) hown htarget

theorem Ensures.alerts_prefix {target : EnvId} (h : Ensures c target s s') :
    s.alerts.alerts <+: s'.alerts.alerts := by
  cases h with
  | report => exact List.prefix_append _ _
  | _ => exact List.prefix_rfl

/-- Alerts are only ever added. -/
theorem Steps.alerts_prefix {phase : Phase} (h : Steps c phase s s') :
    s.alerts.alerts <+: s'.alerts.alerts := by
  induction h with
  | refl => exact List.prefix_rfl
  | tail _ hstep ih =>
    refine ih.trans ?_
    cases hstep with
    | alert a => exact List.prefix_append _ _
    | ensure _ _ hensures => exact hensures.alerts_prefix
    | link _ _ _ hensures => exact hensures.alerts_prefix
    | _ => exact List.prefix_rfl

theorem Ensures.narrowings_eq {target : EnvId} (h : Ensures c target s s') :
    s'.narrowings = s.narrowings := by
  cases h <;> rfl

/-- Narrowings are collected and taken only while bodies are checked. -/
theorem Steps.narrowings_eq {phase : Phase} (hphase : phase.narrows = false)
    (h : Steps c phase s s') : s'.narrowings = s.narrowings := by
  induction h with
  | refl => rfl
  | tail _ hstep ih =>
    refine Eq.trans ?_ ih
    cases hstep with
    | narrow narrowings hnarrows =>
      rw [hphase] at hnarrows
      cases hnarrows
    | ensure _ _ hensures => exact hensures.narrowings_eq
    | link _ _ _ hensures => exact hensures.narrowings_eq
    | _ => rfl

theorem Ensures.fatal_ne {target : EnvId} (h : Ensures c target s s') (hs : s.fatal ≠ none) :
    s'.fatal ≠ none := by
  cases h with
  | walk => simpa using fun hnone => absurd hnone hs
  | _ => exact hs

theorem Step.fatal_ne {phase : Phase} (h : Step c phase s s') (hs : s.fatal ≠ none) :
    s'.fatal ≠ none := by
  cases h with
  | fail => simp
  | ensure _ _ hensures => exact hensures.fatal_ne hs
  | link _ _ _ hensures => exact hensures.fatal_ne hs
  | _ => exact hs

/-- An error that ends the build is never taken back. -/
theorem Steps.fatal_ne {phase : Phase} (h : Steps c phase s s') (hs : s.fatal ≠ none) :
    s'.fatal ≠ none := by
  induction h with
  | refl => exact hs
  | tail _ hstep ih => exact hstep.fatal_ne ih

theorem Ensures.filter_eq {target : EnvId} {test : AlertKind → Bool}
    (hcycle : ∀ names, test (.importCycle names) = false) (h : Ensures c target s s') :
    s'.alerts.alerts.filter (test ·.kind) = s.alerts.alerts.filter (test ·.kind) := by
  cases h with
  | report =>
    refine (Diagnostics.filter_push _ _ test).trans ?_
    simp [hcycle]
  | _ => rfl

/-- Alerts of kinds that are not reported in a phase are not added there. Import cycles are apart: they
are reported by asking for an environment. -/
theorem Steps.filter_eq {phase : Phase} {test : AlertKind → Bool}
    (hcycle : ∀ names, test (.importCycle names) = false)
    (hreports : ∀ kind, phase.reports kind = true → test kind = false) (h : Steps c phase s s') :
    s'.alerts.alerts.filter (test ·.kind) = s.alerts.alerts.filter (test ·.kind) := by
  induction h with
  | refl => rfl
  | tail _ hstep ih =>
    refine Eq.trans ?_ ih
    cases hstep with
    | alert a ha =>
      refine (Diagnostics.filter_push _ a test).trans ?_
      simp [hreports a.kind ha]
    | ensure _ _ hensures => exact hensures.filter_eq hcycle
    | link _ _ _ hensures => exact (hensures.filter_eq hcycle :)
    | _ => rfl

/-- The alerts about missing exits. -/
def State.missing (s : State) : List Alert := s.alerts.alerts.filter (·.kind.isMissingExit)

/-- One alert more. -/
theorem State.missing_push (s : State) (a : Alert) :
    State.missing { s with alerts := s.alerts.push a } =
      s.missing ++ if a.kind.isMissingExit then [a] else [] :=
  Diagnostics.filter_push s.alerts a _

/-- Missing exits are reported only while bodies are checked. -/
theorem Steps.missing_eq {phase : Phase} (hphase : phase.endsBodies = false)
    (h : Steps c phase s s') : s'.missing = s.missing :=
  h.filter_eq (fun _ => rfl) fun _ => Phase.isMissingExit_of_reports hphase

/-- The alerts about fields that are never assigned. -/
def State.unassigned (s : State) : List Alert := s.alerts.alerts.filter (·.kind.isUninitialized)

/-- Fields are checked for an assignment only where bodies are. -/
theorem Steps.unassigned_eq {phase : Phase} (hphase : phase.checksFields = false)
    (h : Steps c phase s s') : s'.unassigned = s.unassigned :=
  h.filter_eq (fun _ => rfl) fun _ => Phase.isUninitialized_of_reports hphase

/-! ## Reading -/

theorem runs_registry : Runs registry c s fun r s' => r = s.session.registry ∧ s' = s :=
  ⟨_, s, rfl, rfl, rfl⟩

theorem runs_ownId : Runs ownId c s fun id s' => id = c.env ∧ s' = s := ⟨_, s, rfl, rfl, rfl⟩

theorem runs_environment (h : Live c s o) :
    Runs environment c s fun env s' => s' = s ∧ s.own? c = some env ∧ env.scopes.outline = o := by
  obtain ⟨env, hget, hown, ho⟩ := h.registered
  refine runs_ownId.bind fun id t ⟨hid, ht⟩ => runs_registry.bind fun r u ⟨hr, hu⟩ => ?_
  subst hid ht hr hu
  exact (runs_lift hget).mono fun a _ ⟨ha, hs⟩ => ⟨hs, ha ▸ hown, ha ▸ ho⟩

theorem runs_scopes (h : Live c s o) :
    Runs scopes c s fun stack s' => s' = s ∧ stack.outline = o ∧
      ∃ env, s.own? c = some env ∧ env.scopes = stack :=
  (runs_environment h).bind fun env _ ⟨hs, hown, ho⟩ => .pure ⟨hs, ho, env, hs ▸ hown, rfl⟩

/-! ## Changing the own environment -/

theorem runs_modifyEnvironment (h : Live c s o) (f : Environment → Environment) :
    Runs (modifyEnvironment f) c s fun _ s' => s' = s.modifyOwn c f := by
  refine runs_ownId.bind fun id t ⟨hid, ht⟩ => ?_
  subst hid ht
  refine (runs_environment h).bind fun env u ⟨hu, _, _⟩ => ?_
  subst hu
  exact runs_modify _

/-- A change of the scopes, with what it does to the outline. -/
theorem runs_modifyScopes {o' : ScopeStack} {f : ScopeStack → ScopeStack} (phase : Phase)
    (h : Live c s o)
    (hf : ∀ env, s.own? c = some env → env.scopes.outline = o →
      (f env.scopes).outline = o' ∧ phase.KeepsRoot env.scopes (f env.scopes)) :
    Runs (modifyScopes f) c s fun _ s' => Steps c phase s s' ∧ Live c s' o' ∧
      s' = s.modifyOwn c fun env => { env with scopes := f env.scopes } := by
  obtain ⟨own, hown, _, ho⟩ := h.own
  have hroot : ∀ env, s.own? c = some env → phase.KeepsRoot env.scopes (f env.scopes) := by
    intro env he
    obtain rfl : own = env := Option.some.inj (hown.symm.trans he)
    exact (hf own hown ho).2
  refine (runs_modifyEnvironment h _).mono fun _ t ht => ?_
  subst ht
  exact ⟨.single (.edit s _ (.scopes f hroot) (.inr fun _ => rfl)),
    h.modifyOwn fun env he ho => ⟨rfl, (hf env he ho).1⟩, rfl⟩

/-! ## Equations -/

section Equations

variable {env : Environment}

theorem environment_eq (h : s.own? c = some env) : environment c s = .ok (env, s) := by
  have hget : s.session.registry.get c.env = .ok env := by
    rw [Registry.get, show s.session.registry.get? c.env = some env from h]
  change (liftM (s.session.registry.get c.env) : Check Environment) c s = _
  rw [hget]
  rfl

theorem scopes_eq (h : s.own? c = some env) : scopes c s = .ok (env.scopes, s) := by
  rw [scopes, bind_apply_ok (environment_eq h)]
  rfl

/-- A change that leaves the own environment as it is. -/
theorem modifyOwn_eq_self (h : s.own? c = some env) {f : Environment → Environment}
    (hf : f env = env) : s.modifyOwn c f = s := by
  obtain ⟨i, hi, hget⟩ := Option.bind_eq_some_iff.1 h
  have henvs : s.session.registry.envs.modify i f = s.session.registry.envs := by
    refine List.ext_getElem? fun j => ?_
    rw [List.getElem?_modify]
    by_cases hij : i = j
    · subst hij
      simp [hget, hf]
    · simp [hij]
  simp only [State.modifyOwn, Registry.modify, hi, henvs]

/-- Two changes of the own environment, one after the other. -/
theorem modifyOwn_modifyOwn (c : Context) (s : State) (f g : Environment → Environment) :
    (s.modifyOwn c f).modifyOwn c g = s.modifyOwn c (g ∘ f) := by
  cases hindex : c.env.userIndex? with
  | none => simp [State.modifyOwn, Registry.modify, hindex]
  | some i => simp [State.modifyOwn, Registry.modify, hindex, List.modify_modify_eq]

theorem modifyScopes_eq (h : s.own? c = some env) (f : ScopeStack → ScopeStack) :
    modifyScopes f c s =
      .ok ((), s.modifyOwn c fun env => { env with scopes := f env.scopes }) := by
  have hrun : modifyScopes f c s = (environment >>= fun _ =>
      modifyRegistry (·.modify c.env fun env => { env with scopes := f env.scopes })) c s := rfl
  rw [hrun, bind_apply_ok (environment_eq h)]
  rfl

end Equations

/-! ## Quiet checks -/

namespace Quiet

variable {phase : Phase} {f : α → Check β}

theorem pure (a : α) : Quiet phase (pure a : Check α) :=
  fun _ _ _ h => .pure ⟨.refl, h⟩

theorem bind (hm : Quiet phase m) (hf : ∀ a, Quiet phase (f a)) : Quiet phase (m >>= f) := by
  intro c s o h
  refine (hm c s o h).bind fun a t ⟨ht, hl⟩ => ?_
  exact (hf a c t o hl).mono fun _ u ⟨hu, hl'⟩ => ⟨ht.trans hu, hl'⟩

/-- A check that is made under a condition, before the rest. -/
theorem guard {f : PUnit → Check β} {m : Check PUnit} {b : Prop} [Decidable b]
    (hm : Quiet phase m) (hf : ∀ u, Quiet phase (f u)) :
    Quiet phase (if b then m >>= f else f ⟨⟩) := by
  split
  · exact hm.bind hf
  · exact hf _

/-- A check that changes nothing. -/
theorem of_reads (h : ∀ c s o, Live c s o → Runs m c s fun _ s' => s' = s) : Quiet phase m :=
  fun c s o hl => (h c s o hl).mono fun _ _ hs => by subst hs; exact ⟨.refl, hl⟩

/-- A check that takes one step outside the environments. -/
theorem of_modify {g : State → State} (hstep : ∀ c s, Step c phase s (g s))
    (henvs : ∀ s, (g s).session.registry.envs = s.session.registry.envs) :
    Quiet phase (modify g : Check PUnit) := by
  intro c s o h
  refine (runs_modify g).mono fun _ t ht => ?_
  subst ht
  exact ⟨.single (hstep c s), h.of_envs_eq (henvs s)⟩

/-- A check that runs after the scopes were read. -/
theorem scopes_bind {g : ScopeStack → Check β}
    (hg : ∀ c s o stack, Live c s o → stack.outline = o →
      (∃ env, s.own? c = some env ∧ env.scopes = stack) →
      Runs (g stack) c s fun _ s' => Steps c phase s s' ∧ Live c s' o) :
    Quiet phase (scopes >>= g) := by
  intro c s o h
  refine (runs_scopes h).bind fun stack t ⟨ht, ho, henv⟩ => ?_
  subst ht
  exact hg c t o stack h ho henv

theorem forM_mem {ι : Type} {step : ι → Check PUnit} {items : List ι}
    (h : ∀ i ∈ items, Quiet phase (step i)) : Quiet phase (items.forM step) := by
  induction items with
  | nil => exact .pure _
  | cons i rest ih =>
    exact (h i (by simp)).bind fun _ => ih fun j hj => h j (by simp [hj])

theorem forM {ι : Type} {step : ι → Check PUnit} (items : List ι)
    (h : ∀ i, Quiet phase (step i)) : Quiet phase (items.forM step) :=
  forM_mem fun i _ => h i

theorem foldlM {ι : Type} {step : α → ι → Check α} (h : ∀ a i, Quiet phase (step a i))
    (items : List ι) (a : α) : Quiet phase (items.foldlM step a) := by
  induction items generalizing a with
  | nil => exact .pure _
  | cons i rest ih => exact (h a i).bind fun _ => ih _

end Quiet

/-! ## Scopes of their own -/

/-- Closing the innermost scope. -/
theorem runs_closeScope {top : Scope} (phase : Phase) [phase.Opens] (h : Live c s (o.cons top)) :
    Runs closeScope c s fun closed s' => Steps c phase s s' ∧
      ∃ scope below, closed = some scope ∧ scope.outline = top ∧ Live c s' (o.afterClosing top) ∧
        s' = s.modifyOwn c fun env => { env with scopes := below } := by
  refine (runs_scopes h).bind fun stack t ⟨ht, ho, own, hown, hstack⟩ => ?_
  subst ht
  obtain ⟨scope, below, hclose, htop, hbelow⟩ := ScopeStack.close?_of_outline_eq_cons ho
  have hroot : ∀ env, t.own? c = some env → phase.KeepsRoot env.scopes below := by
    intro env he
    obtain rfl : own = env := Option.some.inj (hown.symm.trans he)
    exact .of_bindings_eq phase (hstack ▸ ScopeStack.rootBindings_close? hclose)
  simp only [hclose]
  refine (runs_modifyScopes phase h fun env he _ => ⟨hbelow, hroot env he⟩).bind
    fun _ u ⟨hu, hl, hset⟩ => ?_
  exact .pure ⟨hu, scope, below, rfl, htop, hl, hset⟩

/-- A check inside a scope of its own. What the body does to the outline is told by the scope that
it leaves on top of the others, and the state after it differs in the scopes only. -/
theorem runs_inScope {enter : ScopeStack → ScopeStack} {body : Check α} {scope : Scope}
    {Q : α → Scope → State → Prop} (phase : Phase) [phase.Opens] (h : Live c s o)
    (henter : ∀ stack, stack.outline = o →
      (enter stack).outline = o.cons scope ∧ (enter stack).root.bindings = stack.root.bindings)
    (hbody : ∀ s₁, Steps c phase s s₁ → Live c s₁ (o.cons scope) → Runs body c s₁ fun a s₂ =>
      Steps c phase s₁ s₂ ∧ ∃ top, Live c s₂ (o.cons top) ∧ Q a top s₂) :
    Runs (inScope enter body) c s fun r s' => Steps c phase s s' ∧
      ∃ closed below s₂, r.2 = some closed ∧ Live c s' (o.afterClosing closed.outline) ∧
        Q r.1 closed.outline s₂ ∧
        s' = s₂.modifyOwn c fun env => { env with scopes := below } := by
  refine (runs_modifyScopes phase h fun _ _ ho =>
    ⟨(henter _ ho).1, .of_bindings_eq phase (henter _ ho).2⟩).bind fun _ s₁ ⟨hs₁, hl₁, _⟩ => ?_
  refine (hbody s₁ hs₁ hl₁).bind fun a s₂ ⟨hs₂, top, hl₂, hpost⟩ => ?_
  refine (runs_closeScope phase hl₂).bind fun closed s₃ ⟨hs₃, scope, below, hc, htop, hl₃, he⟩ => ?_
  subst htop
  exact .pure ⟨(hs₁.trans hs₂).trans hs₃, scope, below, s₂, hc, hl₃, hpost, he⟩

/-- A check in a scope that keeps its exits to itself. -/
theorem Quiet.scoped {enter : ScopeStack → ScopeStack} {body : Check α} {phase : Phase}
    [phase.Opens] (scope : ScopeStack → Scope)
    (henter : ∀ stack, (enter stack).outline = stack.outline.cons (scope stack.outline) ∧
      (enter stack).root.bindings = stack.root.bindings)
    (hbody : ∀ c s (o : ScopeStack), Live c s (o.cons (scope o)) → Runs body c s fun _ s' =>
      Steps c phase s s' ∧ ∃ top, Live c s' (o.cons top) ∧ o.afterClosing top = o) :
    Quiet phase (inScope enter body) := by
  intro c s o h
  refine (runs_inScope phase (Q := fun _ top _ => o.afterClosing top = o) h
    (fun stack ho => ho ▸ henter stack) fun s₁ _ hl => hbody c s₁ o hl).mono fun r s' hr => ?_
  obtain ⟨hs, closed, _, _, _, hl, hc, _⟩ := hr
  rw [hc] at hl
  exact ⟨hs, hl⟩

/-- A quiet check in a scope that has nothing to hand on. -/
theorem Quiet.scoped_of_quiet {enter : ScopeStack → ScopeStack} {body : Check α} {phase : Phase}
    [phase.Opens] (scope : ScopeStack → Scope)
    (henter : ∀ stack, (enter stack).outline = stack.outline.cons (scope stack.outline) ∧
      (enter stack).root.bindings = stack.root.bindings)
    (hkeeps : ∀ o : ScopeStack, o.afterClosing (scope o) = o) (hbody : Quiet phase body) :
    Quiet phase (inScope enter body) :=
  .scoped scope henter fun c s o hl =>
    (hbody c s _ hl).mono fun _ _ ⟨hs, hl'⟩ => ⟨hs, _, hl', hkeeps o⟩

end Check

end HybroidSema
