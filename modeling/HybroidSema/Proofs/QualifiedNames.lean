import HybroidSema.Proofs.BuildWalks
import HybroidSema.Proofs.Replacements

/-!
# Qualified names lead back

A name of an import is replaced by a qualified name. The two are looked up in different ways: the
name is looked for in one import after the other, first among variables and then among public enums,
and the qualified name leads through the name of an environment to a variable or an enum of that one.
Both find the same thing, because an environment is imported only if it is what some name stands for,
and it is found by its own name then.

* `Item`, `Registry.item?` and `Registry.importedItem?`: what the two look-ups find.
* `runs_link_required`: linking what is required already, and not waiting, leaves the environments.
* `qualified_name_leads_back`: wherever a walk of a build puts a qualified name.
-/

namespace HybroidSema

/-! ## Items -/

/-- What an environment offers under a name. -/
inductive Item where
  | variable (v : Variable)
  | enum (info : EnumInfo)

/-- The value of an expression that names an item. -/
def Item.value : Item → Value
  | .variable v => v.value
  | .enum info => .enumType info.ty

namespace Registry

/-- What a qualified name stands for in its environment: a variable, or else an enum. -/
def item? (r : Registry) (target : EnvId) (name : String) : Option Item :=
  (r.variableOf? target name).map .variable <|> (r.enum? ⟨target, name⟩).map .enum

/-- What an unqualified name stands for in the imports, with the import: the first one that has a
variable of the name, or else the first one that has a public enum of the name. -/
def importedItem? (r : Registry) (imports : List EnvId) (name : String) : Option (EnvId × Item) :=
  match r.variableImport? imports name with
  | some target => (r.variableOf? target name).map fun v => (target, .variable v)
  | none => do
    let target ← r.enumImport? imports name
    let info ← r.enum? ⟨target, name⟩
    return (target, .enum info)

variable {r r' : Registry}

theorem mem_of_importedItem? {imports : List EnvId} {name : String} {target : EnvId} {item : Item}
    (h : r.importedItem? imports name = some (target, item)) : target ∈ imports := by
  unfold importedItem? at h
  split at h
  · next found hfound =>
    obtain ⟨_, -, heq⟩ := Option.map_eq_some_iff.1 h
    cases heq
    exact Check.mem_of_variableImport? hfound
  · obtain ⟨found, hfound, h⟩ := Option.bind_eq_some_iff.1 h
    obtain ⟨_, -, heq⟩ := Option.bind_eq_some_iff.1 h
    cases heq
    exact Check.mem_of_enumImport? hfound

theorem item?_of_envs_eq (h : r'.envs = r.envs) (target : EnvId) (name : String) :
    r'.item? target name = r.item? target name := by
  simp only [item?, variableOf?, enum?, get?_of_envs_eq h]

/-- An environment that has an item is a library, or no longer as it was registered. -/
theorem not_isNew_of_item? {target : EnvId} {name : String} {item : Item} {env : Environment}
    (h : r.item? target name = some item) (he : r.get? target = some env) : ¬env.IsNew := by
  intro hnew
  have hroot : env.rootVariable? name = none := by
    rw [hnew]
    rfl
  have henums : env.enums.get? name = none := by
    rw [hnew]
    rfl
  simp [item?, variableOf?, enum?, library?_of_get? he, he, hroot, henums] at h

end Registry

/-- A variable of the root scope is resolved. -/
theorem Environment.rootVariable?_of_resolve? {env : Environment} {name : String}
    (h : env.scopes.resolve? name = none) : env.rootVariable? name = none := by
  have hnone : env.scopes.chain.findIdx? (·.bindings.contains name) = none :=
    Option.map_eq_none_iff.1 h
  have hroot := List.findIdx?_eq_none_iff.1 hnone env.scopes.root (by simp [ScopeStack.chain])
  simpa [rootVariable?, Table.contains] using hroot

/-! ## Linking again -/

namespace Check

variable {c : Context} {s s' : State} {o : ScopeStack}

/-- A requirement that the kinds allow is recorded. -/
theorem require_eq {own : Environment} (hown : s.own? c = some own) {target : EnvId}
    (hallowed : s.session.registry.accessError? c.env target = none) (span : Span) :
    require target span c s = .ok (true, s.modifyOwn c (·.require target)) := by
  have hregistry : registry c s = .ok (s.session.registry, s) := rfl
  have hid : ownId c s = .ok (c.env, s) := rfl
  rw [require, bind_apply_ok hregistry, bind_apply_ok hid]
  simp only [hallowed]
  have hmodify : modifyEnvironment (·.require target) c s =
      .ok ((), s.modifyOwn c (·.require target)) := by
    rw [modifyEnvironment, bind_apply_ok hid, bind_apply_ok (environment_eq hown)]
    rfl
  rw [bind_apply_ok hmodify]
  rfl

/-- Linking the own environment, or one that is required and was started: no environment
changes. -/
theorem runs_link_required (h : Live c s o) (hs : Linked c s) {own : Environment}
    (hown : s.own? c = some own) {target : EnvId} (hrequired : target = c.env ∨
      target ∈ own.requirements)
    (hstarted : ∀ env, s.session.registry.get? target = some env → env.state ≠ .notWalked)
    (span : Span) : Runs (link target span) c s fun linked s' => linked = true ∧
      s'.session.registry.envs = s.session.registry.envs := by
  have hid : ownId c s = .ok (c.env, s) := rfl
  rw [Runs, link, bind_apply_ok hid]
  split
  · exact ⟨true, s, rfl, rfl, rfl⟩
  · next hne =>
    have hin : target ∈ own.requirements := hrequired.resolve_left (by simpa using hne)
    have hkept : own.require target = own := by
      rw [Environment.require, if_neg]
      simp [Environment.lacksRequirement, hin]
    have hrequire := require_eq hown (hs.allowed own hown target hin) span
    rw [modifyOwn_eq_self (f := (·.require target)) hown hkept] at hrequire
    rw [bind_apply_ok hrequire, if_pos rfl]
    refine (runs_ensureWalked h target span).bind fun _ v hensures => .pure ⟨rfl, ?_⟩
    cases hensures with
    | report cycle span => exact s.session.registry.envs_markCycle c.env target
    | walk _ _ _ _ hwaiting =>
      obtain ⟨env, he, hwaits⟩ := hwaiting
      exact absurd hwaits (hstarted env he)
    | _ => rfl

/-! ## Qualified names -/

/-- What takes the place of a name is a qualified name only if an import has an item of the name. -/
theorem StandsFor.imported {id q name : Ident} {span : Span} {value : Value}
    (h : StandsFor c s id (.envAccess q name span) value) :
    ∃ own target item, s.own? c = some own ∧ own.scopes.resolve? id.name = none ∧
      s.session.registry.importedItem? own.imports id.name = some (target, item) ∧
      s.session.registry.item? target id.name = some item ∧ target ≠ c.env ∧
      value = item.value ∧ q.name = s.session.registry.nameOf target ∧ name = id ∧
      ∀ v, item = .variable v → v.constant = none := by
  cases h with
  | @foreignVariable own target v hown free imported first hv hlit =>
    refine ⟨own, target, .variable v, hown, free, ?_, ?_, ?_, rfl, rfl, rfl, ?_⟩
    · simp [Registry.importedItem?, imported, hv]
    · simp [Registry.item?, hv]
    · -- A variable of the own root scope would bind the name.
      rintro rfl
      have hroot := Environment.rootVariable?_of_resolve? free
      have hget : s.session.registry.get? c.env = some own := hown
      simp [Registry.variableOf?, Registry.library?_of_get? hget, hget, hroot] at hv
    · intro v' hv'
      rwa [← Item.variable.inj hv']
  | @foreignEnum own target info hown unbound imported foreign hne hinfo isPub =>
    have free : own.scopes.resolve? id.name = none := by
      cases hresolve : own.scopes.resolve? id.name with
      | none => rfl
      | some position =>
        obtain ⟨v, hv⟩ := ScopeStack.exists_binding?_of_resolve? hresolve
        simp [Environment.variableOf?, hresolve, hv] at unbound
    have hnone : s.session.registry.variableImport? own.imports id.name = none := by
      simp only [Environment.variableOf?, free, Option.orElse_eq_orElse, Option.orElse_eq_or,
        Option.or_eq_none_iff, List.findSome?_eq_none_iff] at unbound
      simpa [Registry.variableImport?] using unbound.2
    refine ⟨own, target, .enum info, hown, free, ?_, ?_, hne, rfl, rfl, rfl, ?_⟩
    · simp [Registry.importedItem?, hnone, imported, hinfo]
    · simp [Registry.item?, foreign, hinfo]
    · intro v hv
      cases hv

/-- A qualified name for an item without a literal, once its environment is linked. -/
theorem runs_qualifiedName {q name : Ident} {span : Span} {target : EnvId} {item : Item}
    (hlookup : s.session.registry.lookup? q.name = some target)
    (hlink : link target span c s = .ok (true, s'))
    (hitem : s'.session.registry.item? target name.name = some item)
    (hlit : ∀ v, item = .variable v → v.constant = none) :
    Runs (qualifiedName q name span) c s fun r _ =>
      r = (.envAccess q name span, item.value) := by
  have hfound : ∃ isPub, qualified? target name.name c s' = .ok (some ⟨item.value, isPub, none⟩, s') := by
    unfold qualified?
    rw [bind_apply_ok (foreignVariable?_eq target name.name)]
    cases hv : s'.session.registry.variableOf? target name.name with
    | some v =>
      obtain rfl : Item.variable v = item := by simpa [Registry.item?, hv] using hitem
      exact ⟨v.isPub, by simp only [hlit v rfl, Item.value]; rfl⟩
    | none =>
      obtain ⟨info, hinfo, rfl⟩ : ∃ info, s'.session.registry.enum? ⟨target, name.name⟩ = some info ∧
          Item.enum info = item := by simpa [Registry.item?, hv] using hitem
      refine ⟨info.isPub, ?_⟩
      dsimp only
      rw [bind_apply_ok (enum?_eq ⟨target, name.name⟩), hinfo]
      rfl
  obtain ⟨isPub, hfound⟩ := hfound
  have hregistry : registry c s = .ok (s.session.registry, s) := rfl
  rw [Runs, qualifiedName, bind_apply_ok hregistry]
  simp only [hlookup]
  rw [bind_apply_ok hlink]
  simp only [Bool.not_true, Bool.false_eq_true, if_false]
  rw [bind_apply_ok hfound]
  refine runs_ownId.bind fun _ _ _ => ?_
  dsimp only
  split
  · exact ⟨_, _, rfl, rfl⟩
  · exact .pure rfl

end Check

open Check

/-- Qualification keeps what a name means. Take any walk of a build, and any unqualified name that
it comes to and replaces by a qualified one. The name was not bound here; it was found in an import,
and the qualifier stands for that import, where the walk is and when all files were registered. If
the qualified name is walked next, the import is linked, the same variable or enum is found there,
and the node and the value stay the same. In a build that ends without an error every program is
walked in this way. -/
theorem qualified_name_leads_back (config : Config) (files : List (String × Program)) :
    (∀ p c s s₀ regions id hint t q name span value t', BuildWalk config files p c s →
      BuildWalk.Checks p c s s₀ →
      Visits c (programTask p) s₀ regions (.expr (.ident id) hint) t →
      expr (.ident id) hint c t = .ok ((.envAccess q name span, value), t') →
        ∃ own target item linked left, t.own? c = some own ∧
          t.session.registry.importedItem? own.imports id.name = some (target, item) ∧
          value = item.value ∧
          (Session.ofFiles config files).registry.lookup? q.name = some target ∧
          t'.session.registry.lookup? q.name = some target ∧
          link target span c t' = .ok (true, linked) ∧
          linked.session.registry.item? target name.name = some item ∧
          expr (.envAccess q name span) hint c t' = .ok ((.envAccess q name span, value), left)) ∧
    ∀ out, analyze config files = .ok out → ∀ (i : Nat) path p, files[i]? = some (path, p) →
      ∃ c s s₀ walked t, BuildWalk config files p c s ∧ c.env = .user i ∧
        BuildWalk.Checks p c s s₀ ∧ Check.program p c s₀ = .ok (walked, t) ∧
        out.programs[i]? = some walked := by
  refine ⟨fun p c s s₀ regions id hint t q name span value t' hwalk hchecks hvisits hrun => ?_,
    fun out hout i path p hfile => exists_buildWalk hout hfile⟩
  obtain ⟨⟨o, hlive⟩, hlinked, hnames⟩ := hwalk.visits hchecks hvisits
  obtain ⟨own, target, item, hown, free, himported, hitem, hne, rfl, hq, rfl, hlit⟩ :=
    (identifier_standsFor hrun).imported
  -- The look-up reads the session and changes nothing in it.
  have hsession : t'.session = t.session := (reads_identifier_standsFor hown free t _ t' rfl hrun).1
  have hlookup : t'.session.registry.lookup? q.name = some target := by
    have himport := Registry.mem_of_importedItem? himported
    obtain ⟨_, hfound⟩ := hlinked.named own hown target
      ((hlinked.imports own hown target himport).resolve_left hne)
    rw [hsession, hq]
    exact Registry.lookup?_nameOf hlinked.ids hfound
  have hstarted : ∀ env, t'.session.registry.get? target = some env → env.state ≠ .notWalked := by
    intro env he hwaits
    rw [hsession] at he
    exact Registry.not_isNew_of_item? hitem he (hlive.waitsNew target env he hwaits)
  obtain ⟨_, linked, hlink, rfl, henvs⟩ := runs_link_required (hlive.of_envs_eq (by rw [hsession]))
    (hlinked.of_session_eq hsession) (by rw [State.own?, hsession]; exact hown)
    (hlinked.imports own hown target (Registry.mem_of_importedItem? himported)) hstarted span
  have hitem' : linked.session.registry.item? target name.name = some item := by
    rw [Registry.item?_of_envs_eq henvs, hsession, hitem]
  obtain ⟨_, left, hleft, rfl⟩ := runs_qualifiedName hlookup hlink hitem' hlit
  refine ⟨own, target, item, linked, left, hown, himported, rfl, ?_, hlookup, hlink, hitem', hleft⟩
  rw [← hnames, ← hsession]
  exact hlookup

/-- A program that names the enum `Mode` and uses the environment `Math`. -/
def modeUse : Program :=
  [.level "Main",
    .expr (.ident ⟨"Mode", .synthetic⟩), .use ⟨⟨"Math", .synthetic⟩, .synthetic⟩]

/-- The program, and an environment that has the name of a library and declares the enum. -/
def modeFiles : List (String × Program) :=
  [("main.hyb", modeUse),
    ("math.hyb", [.level "Math",
      .enumDecl ⟨⟨"Mode", .synthetic⟩, [⟨"fast", .synthetic⟩], true, .synthetic⟩])]

/-- The check of the first program, and the state from which its walk begins. -/
def modeContext : Context := ⟨.user 0, Session.walk 2⟩

def modeState : State := { session := (Session.ofFiles {} modeFiles).checkOut (.user 0) 0 }

/-- The parts of a qualified name. -/
def qualifiedParts? : Expr → Option (Ident × Ident × Span)
  | .envAccess q name span => some (q, name, span)
  | _ => none

theorem qualifiedParts?_eq_some {e : Expr} {q name : Ident} {span : Span}
    (h : qualifiedParts? e = some (q, name, span)) : e = .envAccess q name span := by
  cases e <;> simp_all [qualifiedParts?]

/-- The name becomes a qualified one, and its qualifier is the environment of user code, though a
library has the same name. -/
theorem qualified_name_leads_back_mode :
    ∃ s₀ value t', BuildWalk {} modeFiles modeUse modeContext modeState ∧
      BuildWalk.Checks modeUse modeContext modeState s₀ ∧
      expr (.ident ⟨"Mode", .synthetic⟩) none modeContext s₀ = .ok ((.envAccess
        ⟨"Math", .synthetic⟩ ⟨"Mode", .synthetic⟩ .synthetic, value), t') ∧
      t'.session.registry.lookup? "Math" = some (.user 1) := by
  have hbegins : BuildWalk {} modeFiles modeUse modeContext modeState :=
    ⟨_, 0, 2, _, .refl, rfl, rfl, rfl, rfl, rfl⟩
  obtain ⟨counts, s₀, hdeclare, -⟩ := runs_declare hbegins.live_linked.1 modeUse
  have hrun : ((Declare.program modeUse modeContext modeState).toOption.bind fun declared =>
      (expr (.ident ⟨"Mode", .synthetic⟩) none modeContext declared.2).toOption.bind fun walked =>
        qualifiedParts? walked.1.1) =
      some (⟨"Math", .synthetic⟩, ⟨"Mode", .synthetic⟩, .synthetic) := by decide +kernel
  rw [hdeclare] at hrun
  cases hexpr : expr (.ident ⟨"Mode", .synthetic⟩) none modeContext s₀ with
  | error e => simp [Except.toOption, hexpr] at hrun
  | ok walked =>
    obtain ⟨⟨e, value⟩, t'⟩ := walked
    simp only [Except.toOption, hexpr, Option.bind_some] at hrun
    obtain rfl := qualifiedParts?_eq_some hrun
    have hvisits : Visits modeContext (programTask modeUse) s₀ ([] ++ [])
        (.expr (.ident ⟨"Mode", .synthetic⟩) none) s₀ :=
      .into (List.mem_cons_self ..) rfl <| .into (List.mem_cons_self ..) rfl (.here _ _)
    obtain ⟨own, target, item, linked, left, -, -, -, hfiles, hlookup, -⟩ :=
      (qualified_name_leads_back {} modeFiles).1 _ _ _ _ _ _ _ _ _ _ _ _ _ hbegins
        ⟨counts, hdeclare⟩ hvisits hexpr
    have huser : (Session.ofFiles {} modeFiles).registry.lookup? "Math" = some (.user 1) := by
      decide +kernel
    obtain rfl : EnvId.user 1 = target := Option.some.inj (huser.symm.trans hfiles)
    exact ⟨s₀, value, t', hbegins, ⟨counts, hdeclare⟩, hexpr, hlookup⟩

end HybroidSema
