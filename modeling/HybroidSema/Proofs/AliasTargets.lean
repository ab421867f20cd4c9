import HybroidSema.Proofs.AliasTypes
import HybroidSema.Proofs.CycleSearch
import HybroidSema.Proofs.OneNamespace
import HybroidSema.Proofs.Reached

/-!
# Aliases with qualified targets

A target may name a type of another environment. That environment is walked to its end before the name
is looked up, unless it was started before, and no walk changes it from then on: it either is finished
or waits for this one. So what such a name stands for is the same in the end. Only the own environment
is read while it changes, by the name that it has in source code.

* `Session.started_of_walk` and `Check.Ensures.not_waiting`: what is asked for has been started.
* `Check.AtRoot` and `Check.Later`: the states between declarations, and what a later one keeps.
* `Check.rootOutlook`: what names in written types are found to be.
* `Declare.runs_typesAfter`: the aliases that are settled get the types that they are read as.
* `Declare.Settled` and `Declare.exists_settled`: whole registrations.
* `Declare.order_of_aliases_is_free`: without qualified names, aliases may stand in any order.
* `Declare.aliases_expand_iff`: when all aliases are expanded.
* `Declare.analyze_leaves_alias_unresolved`: an alias that is read before it has a type.
-/

namespace HybroidSema

/-! ## Environments that are asked for -/

/-- A walk leaves its environment started. -/
theorem Session.started_of_walk {k : Demands} {n : Nat} {s s' : Session} {id : EnvId}
    {result : Option CompileError} {env env' : Environment} (h : s.ReadyFor { k with waiting := n })
    (henv : s.registry.get? id = some env) (hrun : s.walk n id = .ok (result, s'))
    (henv' : s'.registry.get? id = some env') : env'.state ≠ .notWalked := by
  obtain ⟨index, hindex, hget⟩ := Option.bind_eq_some_iff.1 henv
  unfold walk at hrun
  simp only [hindex, henv] at hrun
  by_cases hwaits : env.state = .notWalked
  · obtain ⟨program, hslot, -⟩ := h.programs index env hget hwaits
    cases n with
    | zero =>
      have hnone := List.countP_eq_zero.1 (Nat.le_zero.1 h.few) env (List.mem_of_getElem? hget)
      exact absurd (Environment.waits_iff.2 hwaits) hnone
    | succ n =>
      simp only [hwaits, bne_self_eq_false, Bool.false_eq_true, if_false, hslot] at hrun
      cases hcheck : (s.checkOut id index).runCheck id (Session.walk n) (walkProgram program) with
      | error error =>
        rw [hcheck] at hrun
        cases hrun
      | ok walked =>
        rw [hcheck] at hrun
        cases hrun
        rw [Session.checkIn, Registry.get?_modify_self] at henv'
        obtain ⟨own, -, rfl⟩ := Option.map_eq_some_iff.1 henv'
        intro hstate
        cases hstate
  · simp only [bne_iff_ne, ne_eq, hwaits, not_false_eq_true, if_true] at hrun
    cases hrun
    obtain rfl := Option.some.inj (henv.symm.trans henv')
    exact hwaits

/-- An environment that another one leads back to requires something. -/
theorem Registry.requires_of_findCycle? {r : Registry} {requester target : EnvId}
    {cycle : List EnvId} (h : r.findCycle? requester target = some cycle)
    (hne : target ≠ requester) : ∃ next, r.Requires target next := by
  obtain ⟨rest, -, hchain, hlast, -⟩ := findCycle?_sound h
  cases rest with
  | nil => exact absurd (Option.some.inj hlast) hne
  | cons next rest => exact ⟨next, (List.isChain_cons_cons.1 hchain).1⟩

namespace Check

open Declare

variable {α : Type} {m : Check α} {a : α} {n : Nat} {c : Context} {s t u : State} {o : ScopeStack}
  {target : EnvId} {env own : Environment} {types : String → Option DeclaredType}

/-- What was asked for has been started, if nested walks are deep enough. -/
theorem Ensures.not_waiting {k : Demands} (hwalk : c.walk = Session.walk n)
    (hready : s.session.ReadyFor { k with waiting := n }) (h : Ensures c target s t)
    (hne : target ≠ c.env) (henv : t.session.registry.get? target = some env) :
    env.state ≠ .notWalked := by
  have hcycle {cycle : List EnvId}
      (found : s.session.registry.findCycle? c.env target = some cycle)
      (henv : s.session.registry.get? target = some env) : env.state ≠ .notWalked := by
    obtain ⟨next, env', henv', hnext⟩ := Registry.requires_of_findCycle? found hne
    obtain rfl := Option.some.inj (henv.symm.trans henv')
    intro hwaits
    rw [hready.waitsNew target env henv hwaits] at hnext
    cases hnext
  cases h with
  | exempt h =>
    rcases h with hlibrary | hown
    · rw [(EnvId.library?_eq_none_iff target).1 (Registry.library?_of_get? henv)] at hlibrary
      cases hlibrary
    · exact absurd hown hne
  | report cycle span _ found =>
    exact hcycle found ((Registry.get?_of_envs_eq
      (s.session.registry.envs_markCycle c.env target) target).symm.trans henv)
  | reported cycle _ found => exact hcycle found henv
  | started _ _ h => exact h env henv
  | walk result session _ _ waiting h =>
    obtain ⟨before, hbefore, -⟩ := waiting
    exact Session.started_of_walk hready hbefore (hwalk ▸ h) henv

/-! ## States between declarations -/

/-- Nothing is imported and no scope is open, and nested walks are deep enough. -/
structure AtRoot (n : Nat) (c : Context) (s : State) : Prop where
  nested : c.walk = Session.walk n
  tidy : Tidy (.plainness n) c [] s
  live : Live c s {}
  bare : ∀ own, s.own? c = some own → own.imports = []

/-- A later state has the same environments, and those that were started are as they were, the own one
apart. -/
structure Later (c : Context) (s t : State) : Prop where
  headings : t.session.registry.headings = s.session.registry.headings
  started : ∀ id env, id ≠ c.env → s.session.registry.get? id = some env →
    env.state ≠ .notWalked → t.session.registry.get? id = some env

namespace Later

theorem refl (c : Context) (s : State) : Later c s s := ⟨rfl, fun _ _ _ h _ => h⟩

theorem trans (h : Later c s t) (h' : Later c t u) : Later c s u where
  headings := h'.headings.trans h.headings
  started id env hne he hs := h'.started id env hne (h.started id env hne he hs) hs

theorem of_registry_eq (h : t.session.registry = s.session.registry) : Later c s t := by
  refine ⟨by rw [h], fun id env _ he _ => ?_⟩
  rw [h]
  exact he

theorem lookup? (h : Later c s t) (name : String) :
    t.session.registry.lookup? name = s.session.registry.lookup? name :=
  Registry.lookup?_of_names_eq (Registry.names_of_headings_eq h.headings) name

theorem accessError? (h : Later c s t) (target : EnvId) :
    t.session.registry.accessError? c.env target = s.session.registry.accessError? c.env target :=
  Registry.accessError?_of_headings_eq h.headings _ _

/-- The types of another environment that was started are as they were. -/
theorem type?_eq (h : Later c s t) (hne : target ≠ c.env)
    (hstarted : ∀ env, s.session.registry.get? target = some env → env.state ≠ .notWalked)
    (name : String) :
    t.session.registry.type? target name = s.session.registry.type? target name := by
  have hget : t.session.registry.get? target = s.session.registry.get? target := by
    cases henv : s.session.registry.get? target with
    | some env => exact h.started target env hne henv (hstarted env henv)
    | none =>
      have hheading := Registry.heading_of_headings_eq h.headings target
      rwa [henv, Option.map_none, Option.map_eq_none_iff] at hheading
  rw [Registry.type?, Registry.type?, hget]

end Later

/-- Once aliases are resolved, names stand for the same types. -/
theorem Edit.declaredType?_eq {phase : Phase} {f : Environment → Environment} (h : Edit c phase s f)
    (hclaiming : phase ≠ .claiming) (hresolving : phase ≠ .resolving) (env : Environment) :
    (f env).declaredType? = env.declaredType? := by
  funext name
  cases h with
  | require =>
    simp only [Environment.require]
    split <;> rfl
  | addImport =>
    simp only [Environment.addImport]
    split <;> rfl
  | setField kind =>
    cases kind <;> simp [Environment.declaredType?, Environment.modifyMembers, map_get?_modify]
  | claimClass _ _ hphase | claimEntity _ _ hphase | claimEnum _ _ hphase
  | claimAlias _ _ hphase => exact absurd hphase hclaiming
  | fillAlias _ _ hphase => exact absurd hphase hresolving
  | fillClass _ _ _ hkept | fillEntity _ _ _ hkept =>
    simp [Environment.declaredType?, map_get?_modify, hkept]
  | _ => rfl

/-- The same of a run of steps, and of the entries of the aliases. -/
theorem Steps.declaredType?_eq {phase : Phase} (h : Live c s o) (hsteps : Steps c phase s t)
    (hclaiming : phase ≠ .claiming) (hresolving : phase ≠ .resolving)
    (hown : s.own? c = some own) : ∃ own', t.own? c = some own' ∧
      own'.declaredType? = own.declaredType? ∧ own'.aliases = own.aliases :=
  Steps.own_keeps (I := fun env => env.declaredType? = own.declaredType? ∧ env.aliases = own.aliases)
    h hsteps (fun _ _ env hf _ henv =>
      ⟨(hf.declaredType?_eq hclaiming hresolving env).trans henv.1,
        (hf.aliases_eq hclaiming hresolving env).trans henv.2⟩) hown ⟨rfl, rfl⟩

/-- What only looks leaves the imports alone. -/
theorem Edit.imports_eq {f : Environment → Environment} (h : Edit c .looking s f)
    (env : Environment) : (f env).imports = env.imports := by
  cases h with
  | require =>
    simp only [Environment.require]
    split <;> rfl
  | addImport _ hlooking | setField _ _ _ _ hlooking => exact absurd rfl hlooking
  | _ => rfl

/-- The own environment with what looking does to it: it declares and imports the same. -/
structure Looked (own own' : Environment) : Prop where
  tables : own'.tables = own.tables
  types : own'.declaredType? = own.declaredType?
  imports : own'.imports = own.imports

namespace AtRoot

theorem naming (h : AtRoot n c s) : Naming c.walk := by
  rw [h.nested]
  exact Session.headings_walk n

theorem later (h : AtRoot n c s) (hroute : Route c s t) : Later c s t :=
  ⟨hroute.headings h.live h.naming, (hroute.frames h.live).1.started⟩

/-- What only looks leads from one such state to a later one, and leaves the declarations alone. -/
theorem looks {R : Registry → α → Prop} (h : AtRoot n c s) (hown : s.own? c = some own)
    (hrun : m c s = .ok (a, t)) (hsteps : Steps c .looking s t) (hl : Live c t {})
    (hsound : Sound (.plainness n) c s.session.registry [] m R) :
    AtRoot n c t ∧ Later c s t ∧ ∃ own', t.own? c = some own' ∧ Looked own own' := by
  obtain ⟨own', hown', hlooked⟩ := Steps.own_keeps (I := Looked own) h.live hsteps
    (fun _ _ env hf _ hlooked => ⟨(hf.tables_eq env).trans hlooked.tables,
      (hf.declaredType?_eq nofun nofun env).trans hlooked.types,
      (hf.imports_eq env).trans hlooked.imports⟩) hown ⟨rfl, rfl, rfl⟩
  obtain ⟨htidy, -⟩ := hsound.apply h.tidy (.refl _) hrun
  refine ⟨⟨h.nested, htidy, hl, fun env henv => ?_⟩, h.later hsteps.route, own', hown', hlooked⟩
  obtain rfl := Option.some.inj (hown'.symm.trans henv)
  exact hlooked.imports.trans (h.bare own hown)

end AtRoot

/-! ## Looking names up -/

/-- At the root, names stand for the own types and for what other environments declare, once these were
started. -/
def rootOutlook (n : Nat) (c : Context) (types : String → Option DeclaredType) : Outlook c where
  inv s := AtRoot n c s ∧ ∃ own, s.own? c = some own ∧ own.declaredType? = types
  later := Later c
  look u := u.session.registry.standsIn c.env types
  refl := Later.refl c
  trans := Later.trans
  alerts := fun _ _ ⟨h, hown⟩ => ⟨⟨⟨h.nested, h.tidy.of_envs_eq rfl rfl rfl h.tidy.fatal
    h.tidy.narrowings nofun, h.live.of_envs_eq rfl, h.bare⟩, hown⟩, .of_registry_eq rfl⟩

/-- What only looks keeps the own types. -/
theorem AtRoot.looks_inv {R : Registry → α → Prop} (hs : (rootOutlook n c types).inv s)
    (hrun : m c s = .ok (a, t)) (hsteps : Steps c .looking s t) (hl : Live c t {})
    (hsound : Sound (.plainness n) c s.session.registry [] m R) :
    (rootOutlook n c types).inv t ∧ Later c s t := by
  obtain ⟨h, own, hown, htypes⟩ := hs
  obtain ⟨ht, hlater, own', hown', hlooked⟩ := h.looks hown hrun hsteps hl hsound
  exact ⟨⟨ht, own', hown', hlooked.types.trans htypes⟩, hlater⟩

/-- Where no scope is open, no generic parameter is in scope. -/
theorem hasGeneric_of_outline {stack : ScopeStack} (h : stack.outline = {}) (name : String) :
    stack.hasGeneric name = false := by
  obtain ⟨⟨tag, permits, exits, bindings, parent⟩, inner⟩ := stack
  obtain ⟨hroot, hinner⟩ := ScopeStack.mk.inj h
  have htag : tag.outline = .plain := congrArg Scope.tag hroot
  obtain rfl : inner = [] := by simpa using hinner
  cases tag <;> first | rfl | cases htag

/-- An unqualified name. -/
theorem rootOutlook_findsName_none (name : String) :
    (rootOutlook n c types).FindsName (none, name) := by
  intro span s hs
  obtain ⟨h, own, hown, htypes⟩ := hs
  have hgenerics (name : String) : own.scopes.hasGeneric name = false := by
    obtain ⟨own', hown', -, houtline⟩ := h.live.own
    obtain rfl := Option.some.inj (hown.symm.trans hown')
    exact hasGeneric_of_outline houtline name
  have hreads : Declare.Reads c types [] (namedType ⟨name, span⟩) (standsFor types [] none name) :=
    findsName_none name span
  obtain ⟨added, hrun⟩ := hreads.apply
    ⟨own, hown, congrFun htypes, h.bare own hown, by simpa using hgenerics⟩
  obtain ⟨hinv, hlater⟩ := (rootOutlook n c types).alerts s added ⟨h, own, hown, htypes⟩
  exact ⟨_, _, hrun, hinv, hlater, fun _ _ => rfl⟩

/-- Linking an environment succeeds if it is the own one or the kinds allow it, and then the other one
has been started. -/
theorem AtRoot.runs_link (h : AtRoot n c s) (target : EnvId) (span : Span) :
    Runs (link target span) c s fun linked t =>
      (linked = true ↔ target = c.env ∨ s.session.registry.accessError? c.env target = none) ∧
      (linked = true → target ≠ c.env → ∀ env, t.session.registry.get? target = some env →
        env.state ≠ .notWalked) := by
  unfold link
  refine runs_ownId.bind fun own u ⟨hown, hu⟩ => ?_
  subst hown hu
  split
  · next heq =>
    have htarget : target = c.env := by simpa using heq
    exact .pure ⟨by simp [htarget], fun _ hne => absurd htarget hne⟩
  · next hother =>
    have hne : target ≠ c.env := by simpa using hother
    cases hallowed : u.session.registry.accessError? c.env target with
    | some kind =>
      have hrefused : require target span c u =
          .ok (false, u.addAlerts [{ kind := kind, span := span }]) := by
        have hregistry : registry c u = .ok (u.session.registry, u) := rfl
        rw [require, bind_apply_ok hregistry, bind_apply_ok ownId_eq, hallowed]
        rfl
      rw [Runs, bind_apply_ok hrefused]
      refine ⟨false, _, rfl, by simp [hne], fun htrue => ?_⟩
      cases htrue
    | none =>
      obtain ⟨own, hown, -, -⟩ := h.live.own
      have hrequire := require_eq hown hallowed span
      obtain ⟨htidy, -⟩ := (sound_require (r := u.session.registry) target span).apply h.tidy
        (.refl _) hrequire
      have hlive := (runs_require .looking h.live target span).apply hrequire
      have hlive : Live c (u.modifyOwn c (·.require target)) {} := by
        rcases hlive with ⟨hfalse, -⟩ | ⟨-, -, hlive, -⟩
        · cases hfalse
        · exact hlive
      rw [Runs, bind_apply_ok hrequire, if_pos rfl]
      refine (runs_ensureWalked hlive target span).bind fun _ v hensures => .pure ⟨by simp, ?_⟩
      exact fun _ _ env henv => hensures.not_waiting (k := .plainness 0) h.nested htidy.ready hne henv

/-- What a qualified name is found to be once its environment was linked is what the name stands for
ever after. -/
theorem standsIn_of_linked {env name : String} {linked : Bool}
    (hlookup : s.session.registry.lookup? env = some target)
    (hlinked : linked = true ↔
      target = c.env ∨ s.session.registry.accessError? c.env target = none)
    (hstarted : linked = true → target ≠ c.env → ∀ env, t.session.registry.get? target = some env →
      env.state ≠ .notWalked)
    (hown : t.own? c = some own) (htypes : own.declaredType? = types) (h : Later c s t)
    (hu : Later c t u) : u.session.registry.standsIn c.env types (some env) name =
      (if linked then t.session.registry.type? target name else none).elim .invalid (·.ty) := by
  simp only [Registry.standsIn, ((h.trans hu).lookup? env).trans hlookup,
    (h.trans hu).accessError? target]
  by_cases heq : target = c.env
  · rw [if_pos heq, if_pos (hlinked.2 (.inl heq)), heq, Registry.type?_of_get? hown, htypes]
  · rw [if_neg heq]
    cases hallowed : s.session.registry.accessError? c.env target with
    | none =>
      have htrue := hlinked.2 (.inr hallowed)
      simp [htrue, hu.type?_eq heq (hstarted htrue heq) name]
    | some kind =>
      have hfalse : linked = false := by simpa [heq, hallowed] using hlinked
      simp [hfalse]

/-- Looking a qualified name up ends with what the name stands for in every later state. -/
theorem runs_qualifiedType_root (hs : (rootOutlook n c types).inv s) (env name : Ident) :
    Runs (qualifiedType env name) c s fun a t =>
      ∀ u, Later c t u → a = u.session.registry.standsIn c.env types (some env.name) name.name := by
  unfold qualifiedType
  refine runs_registry.bind fun r v ⟨hr, hv⟩ => ?_
  subst hr hv
  cases hlookup : v.session.registry.lookup? env.name with
  | none =>
    refine ⟨.invalid, _, bind_apply_ok (report_eq _ _), fun u hu => ?_⟩
    simp only [Registry.standsIn, (hu.lookup? env.name).trans hlookup]
  | some target =>
    obtain ⟨linked, w, hlink, hlinked, hstarted⟩ := hs.1.runs_link target env.span
    obtain ⟨⟨hsteps, hl⟩, -⟩ :=
      (runs_link .looking hs.1.live ⟨env.name, hlookup⟩ env.span).apply hlink
    obtain ⟨⟨-, own, hown, htypes⟩, hlater⟩ :=
      AtRoot.looks_inv hs hlink hsteps hl (sound_link target env.span)
    have hfound (u : State) (hu : Later c w u) :
        u.session.registry.standsIn c.env types (some env.name) name.name =
          (if linked then w.session.registry.type? target name.name else none).elim .invalid (·.ty) :=
      standsIn_of_linked hlookup hlinked hstarted hown htypes hlater hu
    dsimp only
    rw [Runs, bind_apply_ok hlink]
    cases linked with
    | false => exact ⟨.invalid, w, rfl, fun u hu => (hfound u hu).symm⟩
    | true =>
      have hreported (kind : AlertKind) (u : State)
          (hu : Later c (w.addAlerts [{ kind := kind, span := name.span }]) u) :=
        hfound u (.trans (t := w.addAlerts _) (.of_registry_eq rfl) hu)
      rw [if_pos rfl, bind_apply_ok (declaredIn?_eq target name.name)]
      cases hdeclared : w.session.registry.type? target name.name with
      | none =>
        refine ⟨.invalid, _, bind_apply_ok (report_eq _ _), fun u hu => ?_⟩
        rw [hreported _ u hu, if_pos rfl, hdeclared]
        rfl
      | some declared =>
        dsimp only
        rw [bind_apply_ok ownId_eq]
        split
        · refine ⟨declared.ty, _, bind_apply_ok (report_eq _ _), fun u hu => ?_⟩
          rw [hreported _ u hu, if_pos rfl, hdeclared]
          rfl
        · refine ⟨declared.ty, w, rfl, fun u hu => ?_⟩
          rw [hfound u hu, if_pos rfl, hdeclared]
          rfl

/-- A qualified name. -/
theorem rootOutlook_findsName_some (env name : String) :
    (rootOutlook n c types).FindsName (some env, name) := by
  intro envSpan nameSpan s hs
  obtain ⟨a, t, hrun, ha⟩ := runs_qualifiedType_root hs ⟨env, envSpan⟩ ⟨name, nameSpan⟩
  have hquiet : Quiet .looking (qualifiedType ⟨env, envSpan⟩ ⟨name, nameSpan⟩) :=
    quiet_qualifiedType _ _
  obtain ⟨hsteps, hl⟩ := (hquiet c s {} hs.1.live).apply hrun
  obtain ⟨hinv, hlater⟩ := AtRoot.looks_inv hs hrun hsteps hl
    (sound_qualifiedType ⟨env, envSpan⟩ ⟨name, nameSpan⟩)
  exact ⟨a, t, hrun, hinv, hlater, ha⟩

end Check

namespace Declare

open Check

variable {n : Nat} {c : Context} {s t : State} {own own' : Environment} {decls : Table AliasDecl}
  {done : List AliasStep}

/-! ## Settling aliases -/

theorem OnlyAliases.of_tables_eq (h : OnlyAliases decls own) (htables : own'.tables = own.tables) :
    OnlyAliases decls own' := by
  simp only [Environment.tables, Prod.mk.injEq] at htables
  obtain ⟨hclasses, hentities, henums, haliases⟩ := htables
  constructor
  · rw [hclasses, hentities, henums]
    exact h.alone
  · rw [haliases]
    exact h.all

/-- An alias that is resolved gets the type that its target is read as, in whatever state comes
later. -/
theorem runs_resolve {decl : AliasDecl} (h : AtRoot n c s) (hown : s.own? c = some own)
    (honly : OnlyAliases decls own) (hsome : (decls.get? decl.name.name).isSome) :
    Runs (AliasStep.resolve decl).perform c s fun _ t => AtRoot n c t ∧ Later c s t ∧
      ∃ own', t.own? c = some own' ∧ OnlyAliases decls own' ∧ ∀ u, Later c t u →
        own'.declaredType? = withType decl.name.name
          (decl.ty.reading (u.session.registry.standsIn c.env own.declaredType?))
          own.declaredType? := by
  have hleaves : ∀ leaf ∈ decl.ty.leaves, (rootOutlook n c own.declaredType?).FindsName leaf := by
    rintro ⟨env, name⟩ -
    cases env with
    | none => exact rootOutlook_findsName_none name
    | some env => exact rootOutlook_findsName_some env name
  -- The target is read.
  obtain ⟨ty, t, hread, -, -, hty⟩ := Outlook.finds_resolveType decl.ty hleaves s ⟨h, own, hown, rfl⟩
  have hquiet : Quiet .looking (resolveType decl.ty) := quiet_resolveType _
  obtain ⟨hsteps, hl⟩ := (hquiet c s {} h.live).apply hread
  have hsound := sound_resolveType (k := .plainness n) (c := c) (r := s.session.registry) (d := [])
    decl.ty
  obtain ⟨ht, hlater, own₁, hown₁, hlooked⟩ := h.looks hown hread hsteps hl hsound
  have honly₁ := honly.of_tables_eq hlooked.tables
  -- The alias gets its type.
  have hset := setAlias_eq hown₁ decl.name.name ty
  obtain ⟨-, -, hdeclared⟩ := hsound.apply h.tidy (.refl _) hread
  obtain ⟨htidy, -⟩ := (sound_setAlias decl.name.name hdeclared).apply ht.tidy (.refl _) hset
  obtain ⟨hsetSteps, hlive⟩ := (quiet_setAlias decl.name.name ty c t {} ht.live).apply hset
  have hset' := ht.later hsetSteps.route
  have hown₂ : (t.modifyOwn c (withAlias decl.name.name ty)).own? c =
      some (withAlias decl.name.name ty own₁) := (own?_modifyOwn c _ t).trans (congrArg _ hown₁)
  refine ⟨(), _, (bind_apply_ok hread).trans hset, ⟨ht.nested, htidy, hlive, fun env henv => ?_⟩,
    hlater.trans hset', _, hown₂, honly₁.withAlias _ _, fun u hu => ?_⟩
  · obtain rfl := Option.some.inj (hown₂.symm.trans henv)
    exact ht.bare own₁ hown₁
  · rw [honly₁.declaredType?_withAlias hsome, hlooked.types, hty u (hset'.trans hu)]
    rfl

/-- Settling aliases gives them their types one after the other. -/
theorem runs_typesAfter (hplan : Plan decls done) (h : AtRoot n c s) (hown : s.own? c = some own)
    (honly : OnlyAliases decls own) :
    Runs (performAll done) c s fun _ t => AtRoot n c t ∧ Later c s t ∧
      ∃ own', t.own? c = some own' ∧ OnlyAliases decls own' ∧ ∀ u, Later c t u →
        own'.declaredType? = typesAfter u.session.registry c.env own.declaredType? done := by
  induction hplan with
  | nil => exact .pure ⟨h, .refl c s, own, hown, honly, fun _ _ => rfl⟩
  | @cycle decl earlier _ _ _ _ ih =>
    refine ih.bind fun _ t ⟨ht, hlater, own₁, hown₁, honly₁, htypes⟩ => ?_
    obtain ⟨⟨hroot, -⟩, hadded⟩ := (rootOutlook n c own₁.declaredType?).alerts t [cycleAlert decl]
      ⟨ht, own₁, hown₁, rfl⟩
    exact ⟨(), _, report_eq _ _, hroot, hlater.trans hadded, own₁, hown₁, honly₁,
      fun u hu => htypes u (hadded.trans hu)⟩
  | @resolve decl earlier _ hdecl _ _ ih =>
    refine ih.bind fun _ t ⟨ht, hlater, own₁, hown₁, honly₁, htypes⟩ => ?_
    refine (runs_resolve ht hown₁ honly₁ (Option.isSome_of_eq_some hdecl)).mono
      fun _ u ⟨hu, hlater', own₂, hown₂, honly₂, htypes'⟩ =>
        ⟨hu, hlater.trans hlater', own₂, hown₂, honly₂, fun v hv => ?_⟩
    rw [htypes' v hv, htypes v (hlater'.trans hv)]
    rfl

/-! ## Whole registrations -/

variable {config : Config} {files : List (String × Program)} {depth : Nat} {p : Program} {id : EnvId}

/-- Every walk begins at the root of a fresh environment. -/
theorem atRoot_of_begins (h : Begins config files depth p id s) :
    AtRoot depth ⟨id, Session.walk depth⟩ s ∧
      ∃ own, s.own? ⟨id, Session.walk depth⟩ = some own ∧ own.IsFresh := by
  have htidy := h.tidy (k := .plainness 0) not_false
  obtain ⟨session, i, env, rfl, rfl, hready, hget, hwaits, -⟩ := h.before (k := .plainness 0) not_false
  have hnew := hready.waitsNew _ env hget hwaits
  have hlive := Session.live_checkOut (Session.framing_walk depth) hready.waitsNew hget hnew i
  have hown := session.registry.get?_modify_self (.user i) fun env => { env with state := .walking }
  rw [hget, Option.map_some] at hown
  have hfresh : Environment.IsFresh { env with state := .walking } := by
    rw [Environment.IsFresh, hnew]
    rfl
  refine ⟨⟨rfl, htidy, hlive, fun own hown' => ?_⟩, _, hown, hfresh⟩
  obtain rfl := Option.some.inj (hown.symm.trans hown')
  exact congrArg Environment.imports hfresh

/-- The registration of a program with aliases, with what was settled and in which order, and with the
own environment after the types were claimed and in the end. -/
structure Settled (p : Program) (c : Context) (s : State) (run : Registration p c s)
    (done : List AliasStep) (own claimed e : Environment) : Prop where
  settles : Settles p.aliasTable [] p.aliasOrder [] done
  performs : performAll done c run.claimed = .ok ((), run.resolved)
  claims : Claimed c.env p own claimed
  id : claimed.id = c.env
  names : ∀ env, run.final.session.registry.lookup? env = s.session.registry.lookup? env
  final : run.final.own? c = some e
  types : e.declaredType? = typesAfter run.final.session.registry c.env claimed.declaredType? done
  aliases : ∀ name, (p.aliasTable.get? name).isSome →
    e.declaredType? name = (e.aliases.get? name).map fun info => ⟨info.ty, info.isPub⟩

/-- In every walk of a body without imports the aliases are settled, and stand in the end for what they
were read as. -/
theorem exists_settled (h : Begins config files depth p id s) (huse : p.filterMap use? = [])
    (hnames : p.HasOwnAliases) :
    ∃ run done own claimed e, Settled p ⟨id, Session.walk depth⟩ s run done own claimed e := by
  obtain ⟨hroot, own, hown, hfresh⟩ := atRoot_of_begins h
  obtain ⟨run, -⟩ := Registration.exists_of_live hroot.live p
  obtain ⟨claimed, hown₂, hclaimed⟩ := run.own_claimed_of_use hroot.live hown hfresh huse
  have honly := (hclaimed.onlyAliases hnames).1
  have hrun := run.claims
  obtain ⟨hclaiming, hl₂⟩ := run.steps_claimed hroot.live
  rw [run.imported_eq huse] at hrun hclaiming
  obtain ⟨htidy, -⟩ := (sound_countEach (k := .plainness depth) (r := s.session.registry)
    (fun stmt _ => sound_claimType stmt) p).apply hroot.tidy (.refl _) hrun
  have hroot₂ : AtRoot depth ⟨id, Session.walk depth⟩ run.claimed := by
    refine ⟨rfl, htidy, hl₂, fun env henv => ?_⟩
    obtain rfl := Option.some.inj (hown₂.symm.trans henv)
    rw [hclaimed.kept]
    exact hroot.bare own hown
  -- The aliases are settled.
  obtain ⟨done, hsettles, hresolves⟩ := settles_resolveAliases p
  obtain ⟨hplan, -⟩ := hsettles.plan p.keyed_aliasTable .nil (by simp)
  have hperform := (hresolves rfl hown₂ hclaimed.declaredSpan?).symm.trans run.resolves
  obtain ⟨hroot₃, hlater₃, own₃, hown₃, honly₃, htypes⟩ :=
    (runs_typesAfter hplan hroot₂ hown₂ honly).apply hperform
  -- The rest of the registration changes no type.
  obtain ⟨hfill, hl₄⟩ := run.steps_filled hroot.live
  have hrest := (run.steps_bound hroot.live).1.trans (run.steps_final hroot.live).1
  obtain ⟨own₄, hown₄, htypes₄, haliases₄⟩ :=
    Steps.declaredType?_eq hroot₃.live hfill nofun nofun hown₃
  obtain ⟨e, hown₅, htypes₅, haliases₅⟩ := Steps.declaredType?_eq hl₄ hrest nofun nofun hown₄
  have hlater := hroot₃.later ((Steps.route hfill).trans (Steps.route hrest))
  have hlookup := ((hroot.later hclaiming.route).trans (hlater₃.trans hlater)).lookup?
  have hsame : e.declaredType? = own₃.declaredType? := htypes₅.trans htypes₄
  exact ⟨run, done, own, claimed, e, hsettles, hperform, hclaimed,
    htidy.fine.ids _ claimed hown₂, hlookup, hown₅, hsame.trans (htypes run.final hlater),
    fun name hsome => by rw [hsame, honly₃.declaredType? hsome, haliases₅, haliases₄]⟩

/-- All aliases are settled as planned. -/
theorem Settled.plan {c : Context} {run : Registration p c s} {claimed e : Environment}
    (h : Settled p c s run done own claimed e) : Plan p.aliasTable done ∧
      ∀ name, (p.aliasTable.get? name).isSome → name ∈ settledNames done := by
  obtain ⟨hplan, -, hall⟩ := h.settles.plan p.keyed_aliasTable .nil (by simp)
  exact ⟨hplan, fun name hsome => hall name (Program.mem_aliasOrder hsome) hsome⟩

/-- Acyclic aliases are expanded exactly if the qualified ones are settled in order. -/
theorem Settled.isExpansion_iff {c : Context} {run : Registration p c s} {claimed e : Environment}
    (h : Settled p c s run done own claimed e) (hnames : p.HasOwnAliases)
    (hacyclic : ∀ a, ¬Relation.TransGen (Mentions p.aliasTable) a a) :
    IsExpansion run.final.session.registry c.env p.aliasTable e.declaredType? ↔
      QualifiedInOrder run.final.session.registry c.env p.aliasTable e.declaredType? done := by
  rw [h.types]
  exact h.plan.1.isExpansion_iff hacyclic h.plan.2 (h.claims.onlyAliases hnames).2

/-- Where no target has a qualified name in it, acyclic aliases are expanded. -/
theorem Settled.isExpansion {c : Context} {run : Registration p c s} {claimed e : Environment}
    (h : Settled p c s run done own claimed e) (hnames : p.HasOwnAliases)
    (hunqualified : ∀ name decl, p.aliasTable.get? name = some decl → Unqualified [decl.ty])
    (hacyclic : ∀ a, ¬Relation.TransGen (Mentions p.aliasTable) a a) :
    IsExpansion run.final.session.registry c.env p.aliasTable e.declaredType? := by
  refine (h.isExpansion_iff hnames hacyclic).2 fun later decl earlier hdone env other hleaf => ?_
  have hdecl := (hdone ▸ h.plan.1).declared_resolve
  cases hunqualified _ decl hdecl decl.ty (by simp) _ (decl.ty.leaves_subset hleaf)

/-- What is no alias stands for what it was claimed as. -/
theorem Settled.map_declaredType? {c : Context} {run : Registration p c s} {claimed e : Environment}
    (h : Settled p c s run done own claimed e) {name : String}
    (hnone : p.aliasTable.get? name = none) :
    (e.declaredType? name).map (·.ty) = (p.first? name).bind (·.claimedTy? c.env) := by
  rw [h.types, h.plan.1.typesAfter_of_get?_eq_none hnone, h.claims.map_declaredType? h.id]

/-- Where no target has a qualified name in it, the aliases of a body without imports may be declared
in any order: in two builds of the same declarations all names stand for the same types. -/
theorem order_of_aliases_is_free {config' : Config} {files' : List (String × Program)} {depth' : Nat}
    {q : Program} {s' : State} (h : Begins config files depth p id s)
    (h' : Begins config' files' depth' q id s') (huse : p.filterMap use? = [])
    (huse' : q.filterMap use? = []) (hnames : p.HasOwnAliases) (hnames' : q.HasOwnAliases)
    (hclaims : ∀ name, (q.first? name).bind (·.claimedTy? id) =
      (p.first? name).bind (·.claimedTy? id))
    (hsame : SameTargets p.aliasTable q.aliasTable)
    (hunqualified : ∀ name decl, p.aliasTable.get? name = some decl → Unqualified [decl.ty])
    (hacyclic : ∀ a, ¬Relation.TransGen (Mentions p.aliasTable) a a) :
    ∃ (run : Registration p ⟨id, Session.walk depth⟩ s)
      (run' : Registration q ⟨id, Session.walk depth'⟩ s') (e e' : Environment),
      run.final.own? ⟨id, Session.walk depth⟩ = some e ∧
      run'.final.own? ⟨id, Session.walk depth'⟩ = some e' ∧
      ∀ name, (e'.declaredType? name).map (·.ty) = (e.declaredType? name).map (·.ty) := by
  obtain ⟨run, done, own, claimed, e, hsettled⟩ := exists_settled h huse hnames
  obtain ⟨run', done', own', claimed', e', hsettled'⟩ := exists_settled h' huse' hnames'
  refine ⟨run, run', e, e', hsettled.final, hsettled'.final, ?_⟩
  have hexpansion := hsettled.isExpansion hnames hunqualified hacyclic
  have hunqualified' := hsame.unqualified hunqualified
  have hacyclic' (a : String) (ha : Relation.TransGen (Mentions q.aliasTable) a a) : False :=
    hacyclic a (Relation.TransGen.mono (fun _ _ => hsame.symm.mentions) a a ha)
  have hexpansion' := (hsettled'.isExpansion hnames' hunqualified' hacyclic').of_unqualified
    hunqualified' run.final.session.registry id
  refine IsExpansion.unique (fun a ha => hacyclic a ?_) hsame
    ⟨fun _ => .rfl, fun name hnone => ?_, fun env name hown => ?_⟩ hexpansion hexpansion'
  · exact Relation.TransGen.mono (fun _ _ hrefers => hrefers.mentions hunqualified) a a ha
  · have hnone' : q.aliasTable.get? name = none := by
      simpa [hnone] using hsame name
    rw [hsettled.map_declaredType? hnone, hsettled'.map_declaredType? hnone']
    exact hclaims name
  · exact Registry.standsIn_congr fun hown' => absurd hown' hown

/-- In every walk of a body without imports, in which the name of every alias is declared once and no
alias refers to itself in a circle, all aliases are resolved. In the end each of them stands for its
target with all aliases in it expanded, exactly if the aliases that targets qualify with the name of
the own environment are settled before those targets, or stand for the error sentinel anyway. Then
they stand for the same wherever else the same aliases are expanded, in whatever order these are
declared there. -/
theorem aliases_expand_iff (h : Begins config files depth p id s) (huse : p.filterMap use? = [])
    (hnames : p.HasOwnAliases)
    (hacyclic : ∀ a, ¬Relation.TransGen (Refers s.session.registry id p.aliasTable) a a) :
    let c : Context := ⟨id, Session.walk depth⟩
    ∃ (run : Registration p c s) (done : List AliasStep) (own claimed e : Environment),
      Settled p c s run done own claimed e ∧ (∀ step ∈ done, ∃ decl, step = .resolve decl) ∧
      (IsExpansion run.final.session.registry id p.aliasTable e.declaredType? ↔
        QualifiedInOrder run.final.session.registry id p.aliasTable e.declaredType? done) ∧
      ∀ registry decls types, SameTargets p.aliasTable decls →
        SameOthers run.final.session.registry registry id p.aliasTable e.declaredType? types →
        QualifiedInOrder run.final.session.registry id p.aliasTable e.declaredType? done →
        IsExpansion registry id decls types →
        ∀ name, (types name).map (·.ty) = (e.declaredType? name).map (·.ty) := by
  intro c
  obtain ⟨run, done, own, claimed, e, hsettled⟩ := exists_settled h huse hnames
  have hmentions : Mentions p.aliasTable ≤ Refers s.session.registry id p.aliasTable :=
    fun _ _ hmentions => hmentions.refers
  have hacyclic' (a : String) (ha : Relation.TransGen (Mentions p.aliasTable) a a) : False :=
    hacyclic a (Relation.TransGen.mono hmentions a a ha)
  have hexpands := hsettled.isExpansion_iff hnames hacyclic'
  refine ⟨run, done, own, claimed, e, hsettled, fun step hstep => ?_, hexpands,
    fun registry decls types hsame hothers hordered hexpansion =>
      IsExpansion.unique (fun a ha => hacyclic a ?_) hsame hothers (hexpands.2 hordered) hexpansion⟩
  · cases step with
    | cycle decl => exact absurd (hsettled.plan.1.leads hstep) (hacyclic' _)
    | resolve decl => exact ⟨decl, rfl⟩
  · exact Relation.TransGen.mono (fun _ _ hrefers => hrefers.of_lookup? hsettled.names) a a ha

/-! ## A qualified name of the own environment -/

/-- An alias in a line of its own. -/
def aliasLine (name : String) (target : TypeExpr) (line : Nat) : Stmt :=
  .aliasDecl ⟨⟨name, ⟨line, 7, 1⟩⟩, target, false, ⟨line, 1, 20⟩⟩

/-- The type `Main::B`. -/
def ownB : TypeExpr :=
  ⟨some ⟨"Main", .synthetic⟩, ⟨"B", .synthetic⟩, [], [], [], false, .synthetic⟩

/-- The level `Main` with the alias `A` of `Main::B` and the alias `B` of `number`, in this order or
in the other. -/
def qualifiedLevel (swapped : Bool) : Program :=
  let a := aliasLine "A" ownB
  let b := aliasLine "B" (writtenName "number" .synthetic)
  .level "Main" ::
    if swapped then [b 2, a 3] else [a 2, b 3]

/-- In either order the name of every alias is declared once, and none refers to itself in a circle. -/
theorem qualifiedLevel_acyclic (swapped : Bool) : (qualifiedLevel swapped).HasOwnAliases ∧
    ∀ r id a, ¬Relation.TransGen (Refers r id (qualifiedLevel swapped).aliasTable) a a := by
  have haliases : ∀ decl ∈ (qualifiedLevel swapped).filterMap alias?,
      decl.name.name = "A" ∧ decl.ty.mentions = [(some "Main", "B")] ∨
        decl.name.name = "B" ∧ decl.ty.mentions = [(none, "number")] := by
    cases swapped <;> decide
  refine ⟨fun decl hdecl => ?_, fun r id a hcircle => ?_⟩
  · rcases haliases decl (List.mem_filterMap.2 ⟨_, hdecl, rfl⟩) with ⟨hname, -⟩ | ⟨hname, -⟩ <;>
      rw [hname] <;> cases swapped <;> rfl
  · have hnumber : (qualifiedLevel swapped).aliasTable.get? "number" = none := by
      cases swapped <;> rfl
    have hrefers {a b : String} (h : Refers r id (qualifiedLevel swapped).aliasTable a b) :
        a = "A" ∧ b = "B" := by
      obtain ⟨decl, env, hdecl, hmention, -, hsome⟩ := h
      obtain rfl := Program.keyed_aliasTable _ a decl hdecl
      have hmem := Program.mem_of_aliasTable hdecl
      rcases haliases decl (List.mem_filterMap.2 ⟨_, hmem, rfl⟩) with ⟨hname, hmentions⟩ | ⟨-, hmentions⟩
      · obtain ⟨-, rfl⟩ : env = some "Main" ∧ b = "B" := by simpa [hmentions] using hmention
        exact ⟨hname, rfl⟩
      · obtain ⟨-, rfl⟩ : env = none ∧ b = "number" := by simpa [hmentions] using hmention
        rw [hnumber] at hsome
        cases hsome
    -- A circle would lead from `A` to `B` and back.
    obtain ⟨_, hfirst, -⟩ := Relation.TransGen.head'_iff.1 hcircle
    obtain ⟨_, -, hlast⟩ := Relation.TransGen.tail'_iff.1 hcircle
    exact absurd ((hrefers hfirst).1.symm.trans (hrefers hlast).2) (by decide)

/-- The alias `B` is settled first if it is declared first. -/
theorem qualifiedLevel_inOrder (r : Registry) (id : EnvId) (types : String → Option DeclaredType)
    (h : Settles (qualifiedLevel true).aliasTable [] (qualifiedLevel true).aliasOrder [] done) :
    QualifiedInOrder r id (qualifiedLevel true).aliasTable types done := by
  obtain ⟨a, ha, haty⟩ : ∃ a, (qualifiedLevel true).aliasTable.get? "A" = some a ∧ a.ty = ownB :=
    ⟨_, rfl, rfl⟩
  obtain ⟨b, hb, hbname, hbty⟩ : ∃ b, (qualifiedLevel true).aliasTable.get? "B" = some b ∧
      b.name.name = "B" ∧ b.ty = writtenName "number" .synthetic := ⟨_, rfl, rfl, rfl⟩
  have hdone : done = [.resolve a, .resolve b] := by
    have horder : (qualifiedLevel true).aliasOrder = ["B", "A"] := by decide
    rw [horder] at h
    have hfirst := h.turn hb List.not_mem_nil List.not_mem_nil (by rw [hbty]; decide)
    have hsecond := hfirst.turn ha (by rw [settledNames_resolve, hbname]; decide) List.not_mem_nil
      (by rw [haty]; decide)
    exact hsecond.eq_of_others nofun
  rintro later decl earlier heq env other hleaf - -
  rw [hdone] at heq
  match later with
  | [] =>
    obtain ⟨rfl, rfl⟩ : a = decl ∧ [.resolve b] = earlier := by simpa using heq
    rw [haty] at hleaf
    obtain ⟨-, rfl⟩ : env = "Main" ∧ other = "B" := by simpa [ownB, TypeExpr.leaves] using hleaf
    exact .inl (by rw [settledNames_resolve, hbname]; exact .head _)
  | [_] =>
    obtain ⟨-, rfl, -⟩ : AliasStep.resolve a = _ ∧ b = decl ∧ [] = earlier := by simpa using heq
    rw [hbty] at hleaf
    cases hleaf
  | _ :: _ :: _ => simp at heq

/-- Then `A` is a number like `B`. -/
theorem aliases_expand_iff_settled_first :
    ∃ s, Begins {} [("main.hyb", qualifiedLevel true)] 0 (qualifiedLevel true) (.user 0) s ∧
      ∃ run : Registration (qualifiedLevel true) ⟨.user 0, Session.walk 0⟩ s,
        ∃ e, run.final.own? ⟨.user 0, Session.walk 0⟩ = some e ∧
          (e.declaredType? "A").map (·.ty) = some .number := by
  obtain ⟨hnames, hacyclic⟩ := qualifiedLevel_acyclic true
  have hbegins : Begins {} [("main.hyb", qualifiedLevel true)] 0 (qualifiedLevel true) (.user 0) _ :=
    .first (i := 0) rfl rfl rfl rfl rfl
  obtain ⟨run, done, own, claimed, e, hsettled, -, hexpands, -⟩ :=
    aliases_expand_iff hbegins rfl hnames (hacyclic _ _)
  refine ⟨_, hbegins, run, e, hsettled.final, ?_⟩
  have hexpansion := hexpands.2 (qualifiedLevel_inOrder _ _ _ hsettled.settles)
  have hA := hexpansion "A" _ rfl
  have hB := hexpansion "B" _ rfl
  obtain ⟨declared, hdeclared, hnumber⟩ := Option.map_eq_some_iff.1 hB
  have hown : run.final.session.registry.IsOwn (.user 0) (some "Main") := hsettled.names "Main"
  refine hA.trans (congrArg some ?_)
  calc ownB.reading (run.final.session.registry.standsIn (.user 0) e.declaredType?)
      = run.final.session.registry.standsIn (.user 0) e.declaredType? (some "Main") "B" := rfl
    _ = declared.ty := Registry.standsIn_own hown hdeclared
    _ = .number := hnumber

/-- If the target `Main::B` is declared before the alias `B`, it is read before `B` has a type: without
an alert `A` stands for the error sentinel. If it is declared after `B`, it stands for `number`. -/
theorem analyze_leaves_alias_unresolved :
    (qualifiedLevel false).HasOwnAliases ∧
      (∀ r id a, ¬Relation.TransGen (Refers r id (qualifiedLevel false).aliasTable) a a) ∧
      ∃ out swapped, analyze {} [("main.hyb", qualifiedLevel false)] = .ok out ∧
        analyze {} [("main.hyb", qualifiedLevel true)] = .ok swapped ∧
        out.codes = [[]] ∧ swapped.codes = [[]] ∧
        out.registry.envs.any (fun env => (env.aliases.get? "A").any (·.ty.isInvalid)) = true ∧
        swapped.registry.envs.any (fun env => (env.aliases.get? "A").any (·.ty.isNumeric)) = true := by
  obtain ⟨hnames, hacyclic⟩ := qualifiedLevel_acyclic false
  have hbuild : (analyze {} [("main.hyb", qualifiedLevel false)]).toOption.any (fun out =>
      out.codes == [[]] &&
        out.registry.envs.any (fun env => (env.aliases.get? "A").any (·.ty.isInvalid))) = true := by
    decide +kernel
  have hswapped : (analyze {} [("main.hyb", qualifiedLevel true)]).toOption.any (fun out =>
      out.codes == [[]] &&
        out.registry.envs.any (fun env => (env.aliases.get? "A").any (·.ty.isNumeric))) = true := by
    decide +kernel
  obtain ⟨out, hout, hinvalid⟩ := Check.exists_eq_ok_of_any hbuild
  obtain ⟨swapped, hok, hnumber⟩ := Check.exists_eq_ok_of_any hswapped
  rw [Bool.and_eq_true, beq_iff_eq] at hinvalid hnumber
  exact ⟨hnames, hacyclic, out, swapped, hout, hok, hinvalid.1, hnumber.1, hinvalid.2, hnumber.2⟩

end Declare

end HybroidSema
