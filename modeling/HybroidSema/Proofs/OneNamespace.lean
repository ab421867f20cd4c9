import HybroidSema.Proofs.AliasCycles
import HybroidSema.Proofs.UnreadAlerts

/-!
# One namespace of types

Classes, entities, enums and aliases share their names, and the first declaration of a name has it.
Ownership is decided once, when names are claimed, and looked up by position ever after: a later
declaration is reported, and it is as if it were not there.

* `Program.firsts` and `Program.redeclarations`: a program without its later declarations, and the
  alerts about those.
* `runs_distinct_claims`: what is claimed.
* `KeepsTables`: checks that read declarations.
* `HoldsFirsts`: the tables hold the first declarations, members apart.
* `classMembers` and `entityMembers`: the members of one declaration.
* `Registration.claimed_firsts` to `Registration.final_firsts`: each stage without the later declarations.
* `first_declaration_wins`.
-/

namespace HybroidSema

/-! ## First and later declarations -/

namespace Program

/-- The names of the types of a program, each with its position. -/
def typeIdents (p : Program) : List Ident := p.filterMap Stmt.typeIdent?

/-- The positions of the type names of a program. -/
def typeSpans (p : Program) : List Span := (p.filterMap Stmt.typeIdent?).map (·.span)

/-- Whether a statement is not a second declaration of a type. -/
def keeps (p : Program) (stmt : Stmt) : Bool := stmt.typeIdent?.all p.owns

/-- The program without its later declarations. -/
def firsts (p : Program) : Program := p.filter p.keeps

/-- The alert about a statement of the program that declares a type again. -/
def laterAlert? (p : Program) (stmt : Stmt) : Option Alert := do
  let id ← stmt.typeIdent?
  let first ← p.type? id.name
  if p.owns id then none
  else some { kind := .redeclaration id.name stmt.typeWord, span := id.span, more := [first.span] }

/-- The alerts about the later declarations of a program, each with the position of the first one. -/
def redeclarations (p : Program) : List Alert := p.filterMap p.laterAlert?

variable {p before rest : Program} {stmt : Stmt} {id : Ident} {name : String}

/-- Declarations that stand at different positions are different. -/
theorem nodup_typeIdents (h : p.typeSpans.Nodup) : p.typeIdents.Nodup := h.of_map

/-- A name that is declared before is not declared where a statement after it stands. -/
theorem owns_split (hidents : p.typeIdents.Nodup) (hp : p = before ++ stmt :: rest)
    (hid : stmt.typeIdent? = some id) :
    p.owns id = (before.first? id.name).isNone ∧
      (∀ first, before.type? id.name = some first → p.type? id.name = some first) := by
  have hfirst := first?_split hp hid
  have hsplit : p.typeIdents = before.typeIdents ++ id :: typeIdents rest := by
    rw [hp]
    simp [typeIdents, hid]
  cases hbefore : before.first? id.name with
  | none =>
    have htype : p.type? id.name = some id := by
      rw [type?_eq_first?, hfirst, hbefore]
      exact hid
    refine ⟨owns_of_type? htype, fun first hsome => ?_⟩
    rw [type?_eq_first?, hbefore] at hsome
    cases hsome
  | some earlier =>
    have htype : p.type? id.name = before.type? id.name := by
      rw [type?_eq_first?, type?_eq_first?, hfirst, hbefore]
      rfl
    refine ⟨?_, fun first hsome => htype.trans hsome⟩
    obtain ⟨hmem, hdeclares⟩ := declares_of_first? hbefore
    obtain ⟨first, hsome, hname⟩ := (Option.any_eq_true _ _).1 hdeclares
    have hfirst : first ∈ before.typeIdents := List.mem_filterMap.2 ⟨earlier, hmem, hsome⟩
    rw [hsplit, List.nodup_append] at hidents
    have hne := hidents.2.2 _ hfirst _ (List.mem_cons_self ..)
    rw [owns, htype, type?_eq_first?, hbefore, Option.bind_some, hsome]
    simpa using hne

/-- The later declarations of a program are the ones that claim nothing. -/
theorem keeps_split (hidents : p.typeIdents.Nodup) (hp : p = before ++ stmt :: rest) :
    p.keeps stmt = (stmt.typeIdent?.isNone || before.claims stmt) := by
  unfold keeps claims
  cases hid : stmt.typeIdent? with
  | none => rfl
  | some id => simpa using (owns_split hidents hp hid).1

theorem laterAlert?_split (hidents : p.typeIdents.Nodup) (hp : p = before ++ stmt :: rest) :
    p.laterAlert? stmt = before.redeclaration? stmt := by
  unfold laterAlert? redeclaration?
  cases hid : stmt.typeIdent? with
  | none => rfl
  | some id =>
    obtain ⟨howns, htype⟩ := owns_split hidents hp hid
    simp only [Option.bind_eq_bind, Option.bind_some]
    cases hbefore : before.type? id.name with
    | some first =>
      have hnot : p.owns id = false := by
        rw [howns]
        rw [type?_eq_first?] at hbefore
        cases hfirst : before.first? id.name with
        | none => simp [hfirst] at hbefore
        | some earlier => rfl
      simp [htype first hbefore, hnot]
    | none =>
      have hnone : before.first? id.name = none := by
        cases hfirst : before.first? id.name with
        | none => rfl
        | some earlier =>
          obtain ⟨-, hdeclares⟩ := declares_of_first? hfirst
          obtain ⟨first, hsome, -⟩ := (Option.any_eq_true _ _).1 hdeclares
          rw [type?_eq_first?, hfirst, Option.bind_some, hsome] at hbefore
          cases hbefore
      have hyes : p.owns id = true := by rw [howns, hnone]; rfl
      simp [hyes]

/-! ### Without the later declarations -/

/-- The first declaration of a name is not left out. -/
theorem first?_firsts (p : Program) (name : String) : p.firsts.first? name = p.first? name := by
  cases hfirst : p.first? name with
  | none =>
    rw [first?, List.find?_eq_none] at hfirst ⊢
    exact fun stmt hstmt => hfirst stmt (List.mem_of_mem_filter hstmt)
  | some stmt =>
    have hkept : p.keeps stmt = true := by
      have htype := type?_eq_first? p name
      rw [hfirst, Option.bind_some] at htype
      cases hid : stmt.typeIdent? with
      | none => simp [keeps, hid]
      | some id =>
        rw [hid] at htype
        have hname : id.name = name := by simpa [type?] using List.find?_some htype
        simpa [keeps, hid] using owns_of_type? (hname ▸ htype)
    obtain ⟨hdeclares, earlier, later, hsplit, hearlier⟩ := List.find?_eq_some_iff_append.1 hfirst
    have hfirsts : p.firsts = earlier.filter p.keeps ++ stmt :: later.filter p.keeps := by
      unfold firsts
      rw [hsplit, List.filter_append, ← hsplit, List.filter_cons_of_pos hkept]
    have hnone : (earlier.filter p.keeps).find? (·.declares name) = none :=
      List.find?_eq_none.2 fun a ha => by simpa using hearlier a (List.mem_of_mem_filter ha)
    rw [hfirsts, first?, List.find?_append, hnone]
    simp [hdeclares]

theorem type?_firsts (p : Program) (name : String) : p.firsts.type? name = p.type? name := by
  rw [type?_eq_first?, type?_eq_first?, first?_firsts]

theorem owns_firsts (p : Program) (name : Ident) : p.firsts.owns name = p.owns name := by
  rw [owns, owns, type?_firsts]

theorem firsts_firsts (p : Program) : p.firsts.firsts = p.firsts := by
  have hkeeps : p.firsts.keeps = p.keeps := funext fun stmt => by
    rw [keeps, keeps, funext p.owns_firsts]
  rw [firsts, hkeeps, firsts, List.filter_filter]
  simp

/-- A statement that declares no type is not left out. -/
theorem filterMap_firsts {β : Type} {f : Stmt → Option β} (p : Program)
    (hf : ∀ stmt, p.keeps stmt = false → f stmt = none) : p.firsts.filterMap f = p.filterMap f := by
  have hlist (l : List Stmt) : (l.filter p.keeps).filterMap f = l.filterMap f := by
    induction l with
    | nil => rfl
    | cons stmt rest ih =>
      cases hkeep : p.keeps stmt with
      | true => simp [hkeep, List.filterMap_cons, ih]
      | false => simp [hkeep, ih, hf stmt hkeep]
  exact hlist p

/-- The aliases that have their names are not left out. -/
theorem ownAliases_firsts (p : Program) : p.firsts.ownAliases = p.ownAliases := by
  have hown (q : Program) : q.ownAliases =
      q.filterMap fun stmt => (Declare.alias? stmt).filter (q.owns ·.name) := by
    rw [ownAliases, List.filter_filterMap]
  simp only [hown, owns_firsts]
  refine filterMap_firsts p fun stmt hkeep => ?_
  cases stmt with
  | aliasDecl decl =>
    have hnot : p.owns decl.name = false := by simpa [keeps, Stmt.typeIdent?] using hkeep
    simp [Declare.alias?, hnot]
  | _ => rfl

end Program

namespace Declare

open Check

variable {α β : Type} {c : Context} {s t : State} {o : ScopeStack} {p before rest : Program}
  {e e' env : Environment} {id : EnvId} {stmt : Stmt} {name : String}

/-! ## The claims of a program -/

/-- The environment with the types that a program without later declarations declares. -/
def claimAll (id : EnvId) (e : Environment) (p : Program) : Environment := p.foldl (·.addType id ·) e

/-- Where no two declarations have the same name and position, the first ones are claimed, and every
later one is reported. -/
theorem runs_distinct_claims (hown : s.own? c = some e) (hnew : Claimed c.env [] e e)
    (hidents : p.typeIdents.Nodup) :
    Runs (countEach claimType p) c s fun _ s' => ∃ added : List Alert,
      added.filter (·.kind.isTypeRedeclaration) = p.redeclarations ∧
      s' = (s.modifyOwn c fun _ => claimAll c.env e p.firsts).addAlerts added := by
  refine Runs.mono (runs_countEach (I := fun before _ t => ∃ added : List Alert,
    added.filter (·.kind.isTypeRedeclaration) = before.filterMap p.laterAlert? ∧
    t = (s.modifyOwn c fun _ => claimAll c.env e (before.filter p.keeps)).addAlerts added ∧
    Claimed c.env before e (claimAll c.env e (before.filter p.keeps)))
    (fun before stmt rest k t hp ⟨added, hadded, ht, hclaimed⟩ => ?_)
    ⟨[], rfl, by rw [claimAll, List.filter_nil, List.foldl_nil, modifyOwn_eq_self hown rfl,
      State.addAlerts_nil], hnew⟩) fun _ _ ⟨added, hadded, ht, _⟩ => ⟨added, hadded, ht⟩
  have hown' := ht ▸ State.own?_modifyOwn_addAlerts hown _ added
  obtain ⟨hnext, more, hmore, hrun⟩ := claimType_eq hown' hclaimed stmt
  have hkeeps := p.keeps_split hidents hp
  have hclaims : claimAll c.env e ((before ++ [stmt]).filter p.keeps) =
      if before.claims stmt then (claimAll c.env e (before.filter p.keeps)).addType c.env stmt
      else claimAll c.env e (before.filter p.keeps) := by
    rw [List.filter_append]
    cases hclaims : before.claims stmt with
    | true => simp [claimAll, hkeeps, hclaims]
    | false =>
      cases hid : stmt.typeIdent? with
      | none =>
        have hsame (e : Environment) : e.addType c.env stmt = e := by
          cases stmt <;> first | rfl | cases hid
        simp [claimAll, hkeeps, hid, hsame]
      | some id => simp [claimAll, hkeeps, hclaims, hid]
  rw [hclaims]
  refine ⟨_, _, hrun, added ++ more, ?_, ?_, hnext⟩
  · rw [List.filter_append, List.filterMap_append, hadded, hmore, ← Program.laterAlert?_split hidents hp]
    cases hlater : p.laterAlert? stmt <;> simp [hlater]
  · rw [ht, State.modifyOwn_addAlerts_twice]

end Declare

/-! ## Checks that read declarations -/

/-- The four tables of declared types. -/
def Environment.tables (e : Environment) :
    Table ClassInfo × Table EntityInfo × Table EnumInfo × Table AliasInfo :=
  (e.classes, e.entities, e.enums, e.aliases)

namespace Check

variable {α β : Type} {c : Context} {s t : State} {o : ScopeStack} {m : Check α}

/-- What only looks leaves the tables alone. -/
theorem Edit.tables_eq {f : Environment → Environment} (h : Edit c .looking s f)
    (env : Environment) : (f env).tables = env.tables := by
  cases h with
  | require =>
    simp only [Environment.require]
    split <;> rfl
  | addImport _ hlooking | setField _ _ _ _ hlooking => exact absurd rfl hlooking
  | claimClass _ _ hphase | claimEntity _ _ hphase | claimEnum _ _ hphase
  | claimAlias _ _ hphase | fillClass _ _ hphase | fillEntity _ _ hphase
  | fillAlias _ _ hphase => cases hphase
  | _ => rfl

/-- The check succeeds where the own environment is walked, and leaves its tables alone. -/
def KeepsTables (m : Check α) : Prop :=
  ∀ c s o, Live c s o → Runs m c s fun _ t => Live c t o ∧
    (t.own? c).map Environment.tables = (s.own? c).map Environment.tables

namespace KeepsTables

theorem of_looking (h : Quiet .looking m) : KeepsTables m := by
  intro c s o hl
  refine (h c s o hl).mono fun _ t ⟨hsteps, hl'⟩ => ⟨hl', ?_⟩
  obtain ⟨env, hown, -, -⟩ := hl.own
  obtain ⟨env', hown', htables⟩ := Steps.own_keeps (I := fun e => e.tables = env.tables) hl hsteps
    (fun _ _ other hf _ hother => (hf.tables_eq other).trans hother) hown rfl
  rw [hown, hown']
  exact congrArg some htables

theorem pure (a : α) : KeepsTables (pure a) := fun _ _ _ h => .pure ⟨h, rfl⟩

theorem bind {k : α → Check β} (hm : KeepsTables m) (hk : ∀ a, KeepsTables (k a)) :
    KeepsTables (m >>= k) := by
  intro c s o hl
  refine (hm c s o hl).bind fun a t ⟨ht, htables⟩ => ?_
  exact (hk a c t o ht).mono fun _ u ⟨hu, htables'⟩ => ⟨hu, htables'.trans htables⟩

theorem alert {x : Alert} (hx : Phase.looking.reports x.kind = true) : KeepsTables (alert x) :=
  .of_looking (quiet_alert x hx)

/-- A report that is made under a condition, before the rest. -/
theorem guard {b : Prop} [Decidable b] {m : Check PUnit} {k : PUnit → Check β} (hm : KeepsTables m)
    (hk : ∀ a, KeepsTables (k a)) : KeepsTables (if b then m >>= k else k ⟨⟩) := by
  split
  · exact hm.bind hk
  · exact hk _

end KeepsTables

/-- A scope is no entry of a table. -/
theorem tables_inScope {tag : FuncTag} {r : α × Option Scope} (hm : KeepsTables m) (h : Live c s o)
    (hrun : inScope (·.pushFunction tag) m c s = .ok (r, t)) :
    (t.own? c).map Environment.tables = (s.own? c).map Environment.tables := by
  obtain ⟨⟨⟩, s₁, hopen, hrun⟩ := bind_eq_ok hrun
  obtain ⟨a, s₂, hbody, hrun⟩ := bind_eq_ok hrun
  obtain ⟨closed, s₃, hclose, hpure⟩ := bind_eq_ok hrun
  cases hpure
  obtain ⟨env, hown, -, -⟩ := h.own
  rw [modifyScopes_eq hown] at hopen
  cases hopen
  let pushed (env : Environment) : Environment :=
    { env with scopes := env.scopes.pushFunction tag }
  have hopened := own?_modifyOwn c pushed s
  have hl₁ : Live c (s.modifyOwn c pushed) (env.scopes.pushFunction tag).outline :=
    h.modifyOwn fun other hother _ => by
      obtain rfl := Option.some.inj (hown.symm.trans hother)
      exact ⟨rfl, rfl⟩
  obtain ⟨hl₂, htables⟩ := (hm c _ _ hl₁).apply hbody
  obtain ⟨env₂, hown₂, -, -⟩ := hl₂.own
  have hclosed : (t.own? c).map Environment.tables = (s₂.own? c).map Environment.tables := by
    rw [closeScope, bind_apply_ok (scopes_eq hown₂)] at hclose
    cases hbelow : env₂.scopes.close? with
    | none =>
      rw [hbelow] at hclose
      cases hclose
      rfl
    | some below =>
      rw [hbelow] at hclose
      have hset := (bind_apply_ok (modifyScopes_eq hown₂ fun _ => below.2)).symm.trans hclose
      cases hset
      rw [own?_modifyOwn, hown₂]
      rfl
  rw [hclosed, htables, hopened, hown]
  rfl

theorem keepsTables_resolveSignature (generics : List Ident) (params : List Param)
    (returns : List TypeExpr) : KeepsTables (resolveSignature generics params returns) := by
  refine (KeepsTables.of_looking (quiet_distinctGenerics generics [])).bind fun names => ?_
  have hbody {phase : Phase} : Quiet phase (do
      let params ← resolveTypes (params.map (·.ty))
      let returns ← resolveTypes returns
      return (params, returns)) :=
    (quiet_resolveTypes _).bind fun _ => (quiet_resolveTypes _).bind fun _ => .pure _
  refine KeepsTables.bind (fun c s o hl => ?_) fun _ => .pure _
  have hscope : Quiet .declaring (inScope (·.pushFunction { generics := names }) _) :=
    .scoped_of_quiet (·.funcScope _) (fun stack => stack.pushFunction_opens _) (fun _ => rfl) hbody
  obtain ⟨r, t, hrun, -, hl'⟩ := hscope c s o hl
  exact ⟨r, t, hrun, hl', tables_inScope (.of_looking hbody) hl hrun⟩

end Check

namespace Declare

open Check

variable {c : Context} {s t : State} {o : ScopeStack} {p before rest : Program}
  {e env : Environment} {id : EnvId} {stmt : Stmt} {name : String}

theorem keepsTables_registerMethods (decls : List FunctionDecl) (members : Members) :
    KeepsTables (registerMethods decls members) := by
  induction decls generalizing members with
  | nil => exact .pure _
  | cons decl rest ih =>
    unfold registerMethods
    refine (keepsTables_resolveSignature _ _ _).bind fun signature => ?_
    split
    · exact (ih _).bind fun _ => .pure _
    · exact (KeepsTables.alert rfl).bind fun _ => ih _

theorem keepsTables_registerConstructor (decl : ClassDecl) :
    KeepsTables (registerConstructor decl) := by
  unfold registerConstructor
  split
  · exact (keepsTables_resolveSignature _ _ _).bind fun _ => .pure _
  · exact (KeepsTables.alert rfl).bind fun _ => .pure _

theorem keepsTables_lifecycleSignature (decl : LifecycleDecl) :
    KeepsTables (lifecycleSignature decl) := by
  refine (keepsTables_resolveSignature _ _ _).bind fun signature => ?_
  split
  · exact .guard (.alert rfl) fun _ => .guard (.alert rfl) fun _ => .pure _
  · exact .guard (.alert rfl) fun _ => .pure _

theorem keepsTables_registerLifecycles (entity : Ident) (decls : List LifecycleDecl)
    (first : List Lifecycle) : KeepsTables (registerLifecycles entity decls first) := by
  induction decls generalizing first with
  | nil => exact .pure _
  | cons decl rest ih =>
    unfold registerLifecycles
    split
    · exact (KeepsTables.alert rfl).bind fun _ => ih _
    · exact (keepsTables_lifecycleSignature _).bind fun _ => ih _

theorem keepsTables_registerFunction (stmt : Stmt) : KeepsTables (registerFunction stmt) := by
  cases stmt with
  | function decl =>
    have hquiet : Quiet .binding (registerFunction (.function decl)) := quiet_registerFunction _
    intro c s o hl
    obtain ⟨count, t, hrun, -, hl'⟩ := hquiet c s o hl
    refine ⟨count, t, hrun, hl', ?_⟩
    obtain ⟨signature, s₁, hsignature, hrun⟩ := bind_eq_ok hrun
    obtain ⟨hl₁, htables⟩ := (keepsTables_resolveSignature _ _ _ c s o hl).apply hsignature
    obtain ⟨env₁, hown₁, -, -⟩ := hl₁.own
    rw [bind_apply_ok (scopes_eq hown₁)] at hrun
    rw [← htables]
    revert hrun
    cases env₁.scopes.declareRoot _ with
    | ok stack =>
      intro hrun
      cases (bind_apply_ok (modifyScopes_eq hown₁ fun _ => stack)).symm.trans hrun
      rw [own?_modifyOwn, hown₁]
      rfl
    | error error =>
      intro hrun
      cases error <;> cases hrun <;> rfl
  | _ => exact .pure _

theorem keepsTables_countEach {step : Stmt → Check Nat} (h : ∀ stmt, KeepsTables (step stmt))
    (p : Program) : KeepsTables (countEach step p) := by
  induction p with
  | nil => exact .pure _
  | cons stmt rest ih => exact (h stmt).bind fun _ => ih.bind fun _ => .pure _

/-! ## The members of one declaration -/

/-- What is registered for a class that has its name: its members, how many methods they are, and its
constructor. -/
def classMembers (decl : ClassDecl) : Check (Members × Nat × Option Signature) := do
  let members ← registerFields decl.fields {}
  let (members, methods) ← registerMethods decl.methods members
  let constructor ← registerConstructor decl
  return (members, methods, constructor)

/-- What is registered for an entity that has its name: its members, how many methods they are, and
its lifecycle functions. -/
def entityMembers (decl : EntityDecl) : Check (Members × Nat × List Lifecycle) := do
  let members ← registerFields decl.fields {}
  let (members, methods) ← registerMethods decl.methods members
  let registered ← registerLifecycles decl.name decl.functions []
  requireLifecycle decl.name .spawn registered
  requireLifecycle decl.name .destroy registered
  return (members, methods, registered)

theorem keepsTables_classMembers (decl : ClassDecl) : KeepsTables (classMembers decl) :=
  (KeepsTables.of_looking (quiet_registerFields _ _)).bind fun _ =>
    (keepsTables_registerMethods _ _).bind fun _ => (keepsTables_registerConstructor _).bind
      fun _ => .pure _

theorem keepsTables_entityMembers (decl : EntityDecl) : KeepsTables (entityMembers decl) :=
  (KeepsTables.of_looking (quiet_registerFields _ _)).bind fun _ =>
    (keepsTables_registerMethods _ _).bind fun _ => (keepsTables_registerLifecycles _ _ _).bind
      fun _ => (KeepsTables.of_looking (quiet_requireLifecycle _ _ _)).bind fun _ =>
        (KeepsTables.of_looking (quiet_requireLifecycle _ _ _)).bind fun _ => .pure _

/-- The environment with the members of a class. -/
def fillClass (name : String) (members : Members) (constructor : Option Signature)
    (env : Environment) : Environment :=
  { env with
    classes := env.classes.modify name fun info =>
      { info with members := members, constructor := constructor } }

/-- The environment with the members of an entity. -/
def fillEntity (name : String) (members : Members) (registered : List Lifecycle)
    (env : Environment) : Environment :=
  { env with
    entities := env.entities.modify name fun info =>
      { info with
        members := members
        spawner := lifecycleOf? .spawn registered
        destroyer := lifecycleOf? .destroy registered
        callbacks := (registered.filter (·.kind.isCallback)).map fun l => (l.kind, l.signature) } }

theorem registerClass_eq (decl : ClassDecl) : registerClass decl = do
    if ← ownsName decl.name then
      let (members, methods, constructor) ← classMembers decl
      modifyEnvironment (fillClass decl.name.name members constructor)
      return methods + constructor.toList.length
    return 0 := by
  simp only [registerClass, classMembers, bind_assoc, pure_bind]
  rfl

theorem registerEntity_eq (decl : EntityDecl) : registerEntity decl = do
    if ← ownsName decl.name then
      let (members, methods, registered) ← entityMembers decl
      modifyEnvironment (fillEntity decl.name.name members registered)
      return methods + registered.length
    return 0 := by
  simp only [registerEntity, entityMembers, bind_assoc, pure_bind]
  rfl

end Declare

/-! ## What the tables hold -/

/-- The entry of a class without what is registered after its claim. -/
def ClassInfo.bare (info : ClassInfo) : ClassInfo :=
  { info with members := {}, constructor := none }

/-- The entry of an entity without what is registered after its claim. -/
def EntityInfo.bare (info : EntityInfo) : EntityInfo :=
  { info with members := {}, spawner := none, destroyer := none, callbacks := [] }

/-- The entry of an alias without its type. -/
def AliasInfo.bare (info : AliasInfo) : AliasInfo := { info with ty := .invalid }

namespace Declare

open Check

variable {c : Context} {s t : State} {o : ScopeStack} {p before rest : Program}
  {e e' env : Environment} {id : EnvId} {stmt : Stmt} {name : String}

/-- Under every name stands what its first declaration claims, in the table for it. -/
structure HoldsFirsts (id : EnvId) (p : Program) (e : Environment) : Prop where
  classes : ∀ name, (e.classes.get? name).map ClassInfo.bare =
    (p.first? name).bind (·.classInfo? id)
  entities : ∀ name, (e.entities.get? name).map EntityInfo.bare =
    (p.first? name).bind (·.entityInfo? id)
  enums : ∀ name, e.enums.get? name = (p.first? name).bind (·.enumInfo? id)
  aliases : ∀ name, (e.aliases.get? name).map AliasInfo.bare =
    (p.first? name).bind Stmt.aliasInfo?

theorem Claimed.holdsFirsts (h : Claimed id p e e') : HoldsFirsts id p e' := by
  refine ⟨fun name => ?_, fun name => ?_, h.enums, fun name => ?_⟩
  · rw [h.classes]
    cases p.first? name with
    | none => rfl
    | some stmt => cases stmt <;> rfl
  · rw [h.entities]
    cases p.first? name with
    | none => rfl
    | some stmt => cases stmt <;> rfl
  · rw [h.aliases]
    cases p.first? name with
    | none => rfl
    | some stmt => cases stmt <;> rfl

namespace HoldsFirsts

theorem of_tables_eq (h : HoldsFirsts id p e) (htables : e'.tables = e.tables) :
    HoldsFirsts id p e' := by
  simp only [Environment.tables, Prod.mk.injEq] at htables
  obtain ⟨hclasses, hentities, henums, haliases⟩ := htables
  exact ⟨hclasses ▸ h.classes, hentities ▸ h.entities, henums ▸ h.enums, haliases ▸ h.aliases⟩

/-- A name is declared where its first declaration stands. -/
theorem declaredSpan? (h : HoldsFirsts id p e) (name : String) :
    e.declaredSpan? name = (p.type? name).map (·.span) := by
  have hclass : (e.classes.get? name).map (·.span) =
      ((e.classes.get? name).map ClassInfo.bare).map (·.span) := by
    rw [Option.map_map]
    rfl
  have hentity : (e.entities.get? name).map (·.span) =
      ((e.entities.get? name).map EntityInfo.bare).map (·.span) := by
    rw [Option.map_map]
    rfl
  have halias : (e.aliases.get? name).map (·.span) =
      ((e.aliases.get? name).map AliasInfo.bare).map (·.span) := by
    rw [Option.map_map]
    rfl
  rw [Environment.declaredSpan?, hclass, hentity, halias, h.classes, h.entities, h.enums, h.aliases,
    Program.type?_eq_first?]
  cases p.first? name with
  | none => rfl
  | some stmt => cases stmt <;> rfl

/-- Every name that is declared is in exactly one table. -/
theorem exactly_one (h : HoldsFirsts id p e) (hname : name ∈ p.typeNames) :
    [e.classes.contains name, e.entities.contains name, e.enums.contains name,
      e.aliases.contains name].count true = 1 := by
  obtain ⟨stmt, hfirst⟩ : ∃ stmt, p.first? name = some stmt := by
    rw [← Option.isSome_iff_exists, Option.isSome_iff_ne_none, ne_eq, Program.first?_eq_none_iff]
    exact not_not.2 hname
  have hclass : e.classes.contains name = (stmt.classInfo? id).isSome := by
    rw [Table.contains, ← Option.isSome_map (f := ClassInfo.bare), h.classes, hfirst]
    rfl
  have hentity : e.entities.contains name = (stmt.entityInfo? id).isSome := by
    rw [Table.contains, ← Option.isSome_map (f := EntityInfo.bare), h.entities, hfirst]
    rfl
  have henum : e.enums.contains name = (stmt.enumInfo? id).isSome := by
    rw [Table.contains, h.enums, hfirst]
    rfl
  have halias : e.aliases.contains name = stmt.aliasInfo?.isSome := by
    rw [Table.contains, ← Option.isSome_map (f := AliasInfo.bare), h.aliases, hfirst]
    rfl
  rw [hclass, hentity, henum, halias]
  have hdeclares := (Program.declares_of_first? hfirst).2
  cases stmt <;> first | rfl | cases hdeclares

/-- Members leave the entry of a class otherwise as it is. -/
theorem modifyClass (h : HoldsFirsts id p e) (name : String) {f : ClassInfo → ClassInfo}
    (hf : ∀ info, (f info).bare = info.bare) :
    HoldsFirsts id p { e with classes := e.classes.modify name f } :=
  ⟨fun other => (map_get?_modify _ _ _ hf).trans (h.classes other), h.entities, h.enums, h.aliases⟩

/-- Members leave the entry of an entity otherwise as it is. -/
theorem modifyEntity (h : HoldsFirsts id p e) (name : String) {f : EntityInfo → EntityInfo}
    (hf : ∀ info, (f info).bare = info.bare) :
    HoldsFirsts id p { e with entities := e.entities.modify name f } :=
  ⟨h.classes, fun other => (map_get?_modify _ _ _ hf).trans (h.entities other), h.enums, h.aliases⟩

/-- So does the type of an alias. -/
theorem modifyAlias (h : HoldsFirsts id p e) (name : String) {f : AliasInfo → AliasInfo}
    (hf : ∀ info, (f info).bare = info.bare) :
    HoldsFirsts id p { e with aliases := e.aliases.modify name f } :=
  ⟨h.classes, h.entities, h.enums, fun other => (map_get?_modify _ _ _ hf).trans (h.aliases other)⟩

/-- Steps that neither claim names nor register members. -/
theorem edit (h : HoldsFirsts id p e) {phase : Phase} {f : Environment → Environment}
    (hf : Edit c phase s f) (hclaiming : phase ≠ .claiming) (hdeclaring : phase ≠ .declaring) :
    HoldsFirsts id p (f e) := by
  cases hf with
  | require =>
    simp only [Environment.require]
    split <;> exact h.of_tables_eq rfl
  | addImport =>
    simp only [Environment.addImport]
    split <;> exact h.of_tables_eq rfl
  | setField kind container =>
    cases kind with
    | classDecl => exact h.modifyClass container fun _ => rfl
    | entityDecl => exact h.modifyEntity container fun _ => rfl
  | claimClass _ _ hphase | claimEntity _ _ hphase | claimEnum _ _ hphase
  | claimAlias _ _ hphase => exact absurd hphase hclaiming
  | fillClass _ _ hphase | fillEntity _ _ hphase => exact absurd hphase hdeclaring
  | fillAlias name => exact h.modifyAlias name fun _ => rfl
  | scopes => exact h.of_tables_eq rfl

end HoldsFirsts

/-! ## Registering members -/

/-- What is counted for a program and one more statement. -/
theorem countEach_append {step : Stmt → Check Nat} {k n : Nat} {u : State}
    (hbefore : countEach step before c s = .ok (k, t)) (hstep : step stmt c t = .ok (n, u)) :
    countEach step (before ++ [stmt]) c s = .ok (k + n, u) := by
  induction before generalizing s k with
  | nil =>
    cases hbefore
    rw [List.nil_append, Nat.zero_add]
    exact (bind_apply_ok hstep).trans rfl
  | cons first others ih =>
    obtain ⟨a, s₁, hfirst, hrest⟩ := bind_eq_ok hbefore
    obtain ⟨b, s₂, hothers, hpure⟩ := bind_eq_ok hrest
    cases hpure
    refine (bind_apply_ok hfirst).trans ((bind_apply_ok (ih hothers)).trans ?_)
    rw [Nat.add_assoc]
    rfl

/-- A statement that counts for nothing may be left out. -/
theorem countEach_filter {step : Stmt → Check Nat} {keep : Stmt → Bool}
    (h : ∀ stmt, keep stmt = false → step stmt = pure 0) (p : Program) :
    countEach step (p.filter keep) = countEach step p := by
  induction p with
  | nil => rfl
  | cons stmt rest ih =>
    cases hkeep : keep stmt with
    | true => simp only [List.filter_cons, hkeep, if_true, countEach, ih]
    | false => simp [hkeep, countEach, ih, h stmt hkeep, -bind_pure_comp]

/-- The class of the name has the members that the declaration gives in the state to which the pass
has come when it meets the declaration. -/
def ClassBuilt (p : Program) (c : Context) (s : State) (name : String) (decl : ClassDecl)
    (e : Environment) : Prop :=
  ∃ before k t t' info methods, before ++ [.classDecl decl] <+: p ∧
    countEach registerMembers before c s = .ok (k, t) ∧
    classMembers decl c t = .ok ((info.members, methods, info.constructor), t') ∧
    e.classes.get? name = some info

/-- The entity of the name has the members and lifecycle functions that the declaration gives in the
state to which the pass has come when it meets the declaration. -/
def EntityBuilt (p : Program) (c : Context) (s : State) (name : String) (decl : EntityDecl)
    (e : Environment) : Prop :=
  ∃ before k t t' info methods registered, before ++ [.entityDecl decl] <+: p ∧
    countEach registerMembers before c s = .ok (k, t) ∧
    entityMembers decl c t = .ok ((info.members, methods, registered), t') ∧
    e.entities.get? name = some info ∧
    info.spawner = lifecycleOf? .spawn registered ∧
    info.destroyer = lifecycleOf? .destroy registered ∧
    info.callbacks = (registered.filter (·.kind.isCallback)).map fun l => (l.kind, l.signature)

/-- The members of the first declarations are registered. -/
structure Built (p : Program) (c : Context) (s : State) (before : Program) (e : Environment) :
    Prop where
  classes : ∀ name decl, before.first? name = some (.classDecl decl) → ClassBuilt p c s name decl e
  entities : ∀ name decl, before.first? name = some (.entityDecl decl) →
    EntityBuilt p c s name decl e

/-- One more statement, which leaves the entries of the names before it alone. -/
theorem Built.append (h : Built p c s before e)
    (hclasses : ∀ name, before.first? name ≠ none → e'.classes.get? name = e.classes.get? name)
    (hentities : ∀ name, before.first? name ≠ none → e'.entities.get? name = e.entities.get? name)
    (hclass : ∀ decl, stmt = .classDecl decl → before.first? decl.name.name = none →
      ClassBuilt p c s decl.name.name decl e')
    (hentity : ∀ decl, stmt = .entityDecl decl → before.first? decl.name.name = none →
      EntityBuilt p c s decl.name.name decl e') : Built p c s (before ++ [stmt]) e' := by
  refine ⟨fun name decl hfirst => ?_, fun name decl hfirst => ?_⟩
  · rcases Program.first?_append_cases hfirst with hbefore | ⟨hnone, rfl, hdeclares⟩
    · unfold ClassBuilt
      rw [hclasses name (by simp [hbefore])]
      exact h.classes name decl hbefore
    · obtain rfl : decl.name.name = name := by simpa [Stmt.declares, Stmt.typeIdent?] using hdeclares
      exact hclass decl rfl hnone
  · rcases Program.first?_append_cases hfirst with hbefore | ⟨hnone, rfl, hdeclares⟩
    · unfold EntityBuilt
      rw [hentities name (by simp [hbefore])]
      exact h.entities name decl hbefore
    · obtain rfl : decl.name.name = name := by simpa [Stmt.declares, Stmt.typeIdent?] using hdeclares
      exact hentity decl rfl hnone

/-- A statement without members, or one whose name is taken. -/
theorem Built.skip (h : Built p c s before e) (hclass : ∀ decl, stmt = .classDecl decl →
      before.first? decl.name.name ≠ none)
    (hentity : ∀ decl, stmt = .entityDecl decl → before.first? decl.name.name ≠ none) :
    Built p c s (before ++ [stmt]) e :=
  h.append (fun _ _ => rfl) (fun _ _ => rfl) (fun decl hstmt hnone => absurd hnone (hclass decl hstmt))
    fun decl hstmt hnone => absurd hnone (hentity decl hstmt)

theorem Built.of_tables_eq (h : Built p c s before e) (htables : e'.tables = e.tables) :
    Built p c s before e' := by
  simp only [Environment.tables, Prod.mk.injEq] at htables
  obtain ⟨hclasses, hentities, -⟩ := htables
  refine ⟨fun name decl hfirst => ?_, fun name decl hfirst => ?_⟩
  · unfold ClassBuilt
    rw [hclasses]
    exact h.classes name decl hfirst
  · unfold EntityBuilt
    rw [hentities]
    exact h.entities name decl hfirst

/-- How far the members of a program are registered, with or without its later declarations. -/
structure Reached (p : Program) (c : Context) (s : State) (o : ScopeStack) (before : Program)
    (k : Nat) (t : State) : Prop where
  live : Live c t o
  run : countEach registerMembers before c s = .ok (k, t)
  firsts : countEach registerMembers (before.filter p.keeps) c s = .ok (k, t)
  own : ∃ e, t.own? c = some e ∧ HoldsFirsts c.env p e ∧ Built p c s before e

namespace Reached

variable {k n : Nat} {u : State}

theorem next (h : Reached p c s o before k t) (hmembers : registerMembers stmt c t = .ok (n, u))
    (hleft : p.keeps stmt = false → n = 0 ∧ u = t) (hlu : Live c u o)
    (hown : ∃ e, u.own? c = some e ∧ HoldsFirsts c.env p e ∧ Built p c s (before ++ [stmt]) e) :
    Reached p c s o (before ++ [stmt]) (k + n) u := by
  refine ⟨hlu, countEach_append h.run hmembers, ?_, hown⟩
  rw [List.filter_append, List.filter_singleton]
  cases hkeeps : p.keeps stmt with
  | true => exact countEach_append h.firsts hmembers
  | false =>
    obtain ⟨rfl, rfl⟩ := hleft hkeeps
    simpa using h.firsts

/-- Nothing is registered for a statement without members, or one whose name is taken. -/
theorem skip (h : Reached p c s o before k t) (hmembers : registerMembers stmt c t = .ok (0, t))
    (hclass : ∀ decl, stmt = .classDecl decl → before.first? decl.name.name ≠ none)
    (hentity : ∀ decl, stmt = .entityDecl decl → before.first? decl.name.name ≠ none) :
    Runs (registerMembers stmt) c t fun n u => Reached p c s o (before ++ [stmt]) (k + n) u := by
  obtain ⟨e, hown, hholds, hbuilt⟩ := h.own
  exact ⟨0, t, hmembers, h.next hmembers (fun _ => ⟨rfl, rfl⟩) h.live
    ⟨e, hown, hholds, hbuilt.skip hclass hentity⟩⟩

/-- A name is declared where its first declaration stands. -/
theorem ownsName_eq (h : Reached p c s o before k t) (name : Ident) :
    ownsName name c t = .ok (p.owns name, t) := by
  obtain ⟨e, hown, hholds, -⟩ := h.own
  rw [Declare.ownsName_eq hown, hholds.declaredSpan?, ← p.owns_eq]

/-- The first declaration of a name is a class. -/
theorem classDecl (h : Reached p c s o before k t) {decl : ClassDecl}
    (hp : p = before ++ .classDecl decl :: rest) (howns : p.owns decl.name = true)
    (hfree : before.first? decl.name.name = none) :
    Runs (registerMembers (.classDecl decl)) c t fun n u =>
      Reached p c s o (before ++ [.classDecl decl]) (k + n) u := by
  obtain ⟨e, hown, hholds, hbuilt⟩ := h.own
  obtain ⟨⟨members, methods, constructor⟩, t', hmembers, hl', htables⟩ :=
    keepsTables_classMembers decl c t o h.live
  obtain ⟨e', hown', -, -⟩ := hl'.own
  rw [hown, hown'] at htables
  have hholds' := hholds.of_tables_eq (Option.some.inj htables)
  have hbuilt' := hbuilt.of_tables_eq (Option.some.inj htables)
  have hrun : registerMembers (.classDecl decl) c t = .ok (methods + constructor.toList.length,
      t'.modifyOwn c (fillClass decl.name.name members constructor)) := by
    rw [registerMembers, registerClass_eq, bind_apply_ok (h.ownsName_eq decl.name), howns]
    exact (bind_apply_ok hmembers).trans (bind_apply_ok (modifyEnvironment_eq hown' _))
  have hentry := hholds'.classes decl.name.name
  have hident : (Stmt.classDecl decl).typeIdent? = some decl.name := rfl
  rw [Program.first?_split hp hident, hfree] at hentry
  obtain ⟨info, hinfo, -⟩ := Option.map_eq_some_iff.1 hentry
  refine ⟨_, _, hrun, h.next hrun (fun hnot => ?_) (hl'.modifyOwn fun _ _ ho => ⟨rfl, ho⟩)
    ⟨_, (own?_modifyOwn c _ t').trans (congrArg _ hown'), hholds'.modifyClass _ fun _ => rfl,
      hbuilt'.append (fun name hne => ?_) (fun _ _ => rfl) (fun other hother _ => ?_) nofun⟩⟩
  · exact absurd howns (by simpa [Program.keeps, Stmt.typeIdent?] using hnot)
  · have hother : name ≠ decl.name.name := fun heq => hne (heq ▸ hfree)
    exact (Table.get?_modify _ _ _ _).trans (if_neg hother)
  · cases hother
    refine ⟨before, k, t, t', { info with members := members, constructor := constructor }, methods,
      ⟨rest, by simp [hp]⟩, h.run, hmembers, ?_⟩
    exact (Table.get?_modify _ _ _ _).trans (by rw [if_pos rfl, hinfo]; rfl)

/-- The first declaration of a name is an entity. -/
theorem entityDecl (h : Reached p c s o before k t) {decl : EntityDecl}
    (hp : p = before ++ .entityDecl decl :: rest) (howns : p.owns decl.name = true)
    (hfree : before.first? decl.name.name = none) :
    Runs (registerMembers (.entityDecl decl)) c t fun n u =>
      Reached p c s o (before ++ [.entityDecl decl]) (k + n) u := by
  obtain ⟨e, hown, hholds, hbuilt⟩ := h.own
  obtain ⟨⟨members, methods, registered⟩, t', hmembers, hl', htables⟩ :=
    keepsTables_entityMembers decl c t o h.live
  obtain ⟨e', hown', -, -⟩ := hl'.own
  rw [hown, hown'] at htables
  have hholds' := hholds.of_tables_eq (Option.some.inj htables)
  have hbuilt' := hbuilt.of_tables_eq (Option.some.inj htables)
  have hrun : registerMembers (.entityDecl decl) c t = .ok (methods + registered.length,
      t'.modifyOwn c (fillEntity decl.name.name members registered)) := by
    rw [registerMembers, registerEntity_eq, bind_apply_ok (h.ownsName_eq decl.name), howns]
    exact (bind_apply_ok hmembers).trans (bind_apply_ok (modifyEnvironment_eq hown' _))
  have hentry := hholds'.entities decl.name.name
  have hident : (Stmt.entityDecl decl).typeIdent? = some decl.name := rfl
  rw [Program.first?_split hp hident, hfree] at hentry
  obtain ⟨info, hinfo, -⟩ := Option.map_eq_some_iff.1 hentry
  refine ⟨_, _, hrun, h.next hrun (fun hnot => ?_) (hl'.modifyOwn fun _ _ ho => ⟨rfl, ho⟩)
    ⟨_, (own?_modifyOwn c _ t').trans (congrArg _ hown'), hholds'.modifyEntity _ fun _ => rfl,
      hbuilt'.append (fun _ _ => rfl) (fun name hne => ?_) nofun (fun other hother _ => ?_)⟩⟩
  · exact absurd howns (by simpa [Program.keeps, Stmt.typeIdent?] using hnot)
  · have hother : name ≠ decl.name.name := fun heq => hne (heq ▸ hfree)
    exact (Table.get?_modify _ _ _ _).trans (if_neg hother)
  · cases hother
    let info' : EntityInfo :=
      { info with
        members := members
        spawner := lifecycleOf? .spawn registered
        destroyer := lifecycleOf? .destroy registered
        callbacks := (registered.filter (·.kind.isCallback)).map fun l => (l.kind, l.signature) }
    refine ⟨before, k, t, t', info', methods, registered, ⟨rest, by simp [hp]⟩, h.run, hmembers, ?_,
      rfl, rfl, rfl⟩
    exact (Table.get?_modify _ _ _ _).trans (by rw [if_pos rfl, hinfo]; rfl)

/-- One more statement of the program. -/
theorem step (h : Reached p c s o before k t) (hp : p = before ++ stmt :: rest)
    (hidents : p.typeIdents.Nodup) :
    Runs (registerMembers stmt) c t fun n u => Reached p c s o (before ++ [stmt]) (k + n) u := by
  have howns {id : Ident} (hid : stmt.typeIdent? = some id) :
      p.owns id = (before.first? id.name).isNone := (Program.owns_split hidents hp hid).1
  cases stmt with
  | classDecl decl =>
    cases hfirst : before.first? decl.name.name with
    | none => exact h.classDecl hp (by rw [howns rfl, hfirst]; rfl) hfirst
    | some earlier =>
      have hnot : p.owns decl.name = false := by rw [howns rfl, hfirst]; rfl
      refine h.skip ?_ (fun other hother => ?_) nofun
      · rw [registerMembers, registerClass_eq, bind_apply_ok (h.ownsName_eq decl.name), hnot]
        rfl
      · cases hother
        simp [hfirst]
  | entityDecl decl =>
    cases hfirst : before.first? decl.name.name with
    | none => exact h.entityDecl hp (by rw [howns rfl, hfirst]; rfl) hfirst
    | some earlier =>
      have hnot : p.owns decl.name = false := by rw [howns rfl, hfirst]; rfl
      refine h.skip ?_ nofun (fun other hother => ?_)
      · rw [registerMembers, registerEntity_eq, bind_apply_ok (h.ownsName_eq decl.name), hnot]
        rfl
      · cases hother
        simp [hfirst]
  | _ => exact h.skip rfl nofun nofun

end Reached

/-- The members of the first declarations of a program are registered, and its later declarations
have no part in it. -/
theorem runs_builds (hl : Live c s o) (hown : s.own? c = some e) (hholds : HoldsFirsts c.env p e)
    (hidents : p.typeIdents.Nodup) :
    Runs (countEach registerMembers p) c s fun k t => Reached p c s o p k t :=
  runs_countEach (I := Reached p c s o) (fun _ _ _ _ _ hp h => h.step hp hidents)
    ⟨hl, rfl, rfl, e, hown, hholds, nofun, nofun⟩

/-! ## Registration without the later declarations -/

namespace Registration

variable (run : Registration p c s) (run' : Registration p.firsts c s)

/-- The same is imported. -/
theorem imported_firsts : run'.imported = run.imported := by
  have himports : importAll p.firsts = importAll p := by
    rw [importAll, importAll, Program.filterMap_firsts p fun stmt hkeep => ?_]
    cases stmt <;> first | rfl | cases hkeep
  have hrun' := run'.imports
  rw [himports, run.imports] at hrun'
  exact (Prod.mk.inj (Except.ok.inj hrun')).2.symm

/-- Each later declaration is reported when it would be claimed. Without it the same is claimed. -/
theorem claimed_firsts (hl : Live c s o) (hown : s.own? c = some env) (hfresh : env.IsFresh)
    (hidents : p.typeIdents.Nodup) :
    run.claimed.alerts.alerts.filter (·.kind.isTypeRedeclaration) =
        run.imported.alerts.alerts.filter (·.kind.isTypeRedeclaration) ++ p.redeclarations ∧
      ∃ alerts, run'.claimed = run.claimed.withAlerts alerts := by
  obtain ⟨e, hown₁, hdeclares⟩ :=
    Steps.declares hl (run.steps_imported hl).1 nofun hown hfresh.declares_nil
  have hnew : Claimed c.env [] e e := claimed_nil hdeclares
  obtain ⟨added, hadded, hstate⟩ := (runs_distinct_claims hown₁ hnew hidents).apply run.claims
  have hidents' : p.firsts.typeIdents.Nodup := hidents.sublist (List.filter_sublist.filterMap _)
  have hclaims' := run'.claims
  rw [run.imported_firsts run'] at hclaims'
  obtain ⟨added', -, hstate'⟩ := (runs_distinct_claims hown₁ hnew hidents').apply hclaims'
  rw [Program.firsts_firsts] at hstate'
  refine ⟨?_, _, hstate'.trans (by rw [hstate]; rfl)⟩
  rw [hstate, State.alerts_addAlerts, List.filter_append, hadded]
  rfl

/-- The same aliases are settled. -/
theorem resolved_firsts {alerts : List Alert} (hown : run.claimed.own? c = some e)
    (hspans : ∀ name, e.declaredSpan? name = (p.type? name).map (·.span))
    (hsame : run'.claimed = run.claimed.withAlerts alerts) :
    (∃ done, performAll done c run.claimed = .ok ((), run.resolved)) ∧
      ∃ alerts, run'.resolved = run.resolved.withAlerts alerts := by
  obtain ⟨done, -, hresolves⟩ := settles_resolveAliases p
  have hresolved := (hresolves rfl hown hspans).symm.trans run.resolves
  have hown' : run'.claimed.own? c = some e := by rw [hsame]; exact hown
  have hresolved' := (hresolves p.ownAliases_firsts hown' fun name => by
    rw [Program.type?_firsts, hspans]).symm.trans run'.resolves
  rw [hsame] at hresolved'
  exact ⟨⟨done, hresolved⟩, (oblivious_performAll done).eq_withAlerts hresolved hresolved'⟩

/-- The same functions are bound and the same imports are walked. -/
theorem final_firsts {alerts : List Alert} (hsame : run'.filled = run.filled.withAlerts alerts) :
    ∃ alerts, run'.final = run.final.withAlerts alerts := by
  have hbinds' := run'.binds
  have hfilter : countEach registerFunction p.firsts = countEach registerFunction p :=
    countEach_filter (fun stmt hkeep => by cases stmt <;> first | rfl | cases hkeep) p
  rw [hsame, hfilter] at hbinds'
  obtain ⟨alerts', hbound⟩ :=
    (oblivious_countEach oblivious_registerFunction p).eq_withAlerts run.binds hbinds'
  have hwalks' := run'.walks
  have hwalks : walkImports p.firsts = walkImports p := by
    rw [walkImports, walkImports, Program.filterMap_firsts p fun stmt hkeep => ?_]
    cases stmt <;> first | rfl | cases hkeep
  rw [hbound, hwalks] at hwalks'
  exact (oblivious_walkImports p).eq_withAlerts run.walks hwalks'

/-- Binding functions and walking imports keeps the tables. -/
theorem tables_final (hl : Live c run.filled o) (hown : run.filled.own? c = some e) :
    ∃ e', run.final.own? c = some e' ∧ e'.tables = e.tables := by
  have hbinds : KeepsTables (countEach registerFunction p >>= fun _ => walkImports p) :=
    (keepsTables_countEach keepsTables_registerFunction p).bind fun _ =>
      .of_looking (quiet_walkImports p)
  obtain ⟨hlive, htables⟩ := (hbinds c _ _ hl).apply ((bind_apply_ok run.binds).trans run.walks)
  obtain ⟨e', hown', -, -⟩ := hlive.own
  rw [hown', hown] at htables
  exact ⟨e', hown', Option.some.inj htables⟩

/-- After the claims no second declaration is reported. -/
theorem redeclarations_final {done : List AliasStep}
    (h : performAll done c run.claimed = .ok ((), run.resolved)) :
    run.final.alerts.alerts.filter (·.kind.isTypeRedeclaration) =
      run.claimed.alerts.alerts.filter (·.kind.isTypeRedeclaration) := by
  rw [(oblivious_walkImports p).filter_alerts_eq run.walks,
    (oblivious_countEach oblivious_registerFunction p).filter_alerts_eq run.binds,
    (oblivious_countEach oblivious_registerMembers p).filter_alerts_eq run.fills,
    (oblivious_performAll done).filter_alerts_eq h]

end Registration

/-! ## The first declaration wins -/

/-- In a fresh environment, and where no two type names stand at the same position, each type name of a
program is in exactly one table, as its first declaration claims it, and with the members that this
declaration gives; the names are counted; each later declaration is reported once, with the position of
the first one; and without the later declarations the pass leaves the same session. -/
theorem first_declaration_wins (depth : Nat) (h : Walks id s env) (hfresh : env.IsFresh)
    (hspans : p.typeSpans.Nodup) :
    let c : Context := ⟨id, Session.walk depth⟩
    ∃ (run : Registration p c s) (run' : Registration p.firsts c s) (e : Environment),
      run.final.own? c = some e ∧ HoldsFirsts id p e ∧ Built p c run.resolved p e ∧
      (∀ name ∈ p.typeNames, [e.classes.contains name, e.entities.contains name,
        e.enums.contains name, e.aliases.contains name].count true = 1) ∧
      run.counts.types = p.typeNames.toFinset.card ∧
      run.final.alerts.alerts.filter (·.kind.isTypeRedeclaration) =
        s.alerts.alerts.filter (·.kind.isTypeRedeclaration) ++ p.redeclarations ∧
      run'.final.session = run.final.session := by
  intro c
  have hidents := Program.nodup_typeIdents hspans
  have hlive : Live c s env.scopes.outline := h.live depth
  obtain ⟨run, -⟩ := Registration.exists_of_live hlive p
  obtain ⟨run', -⟩ := Registration.exists_of_live hlive p.firsts
  -- Claims and aliases
  obtain ⟨htypes, _, claimed, -, -, hown₂, hclaimed, -⟩ := run.own_claimed hlive h.registered hfresh
  obtain ⟨hredeclared, _, hsame₂⟩ := run.claimed_firsts run' hlive h.registered hfresh hidents
  obtain ⟨⟨done, hresolved⟩, _, hsame₃⟩ :=
    run.resolved_firsts run' hown₂ hclaimed.declaredSpan? hsame₂
  obtain ⟨-, hl₂⟩ := run.steps_claimed hlive
  obtain ⟨hsteps₃, hl₃⟩ := run.steps_resolved hlive
  obtain ⟨e₃, hown₃, hholds₃⟩ := Steps.own_keeps (I := HoldsFirsts id p) hl₂ hsteps₃
    (fun _ _ _ hf _ hholds => hholds.edit hf nofun nofun) hown₂ hclaimed.holdsFirsts
  -- Members
  have hreached := (runs_builds hl₃ hown₃ hholds₃ hidents).apply run.fills
  obtain ⟨e₄, hown₄, hholds₄, hbuilt₄⟩ := hreached.own
  obtain ⟨_, hsame₄⟩ : ∃ alerts, run'.filled = run.filled.withAlerts alerts := by
    have hfills' := run'.fills
    rw [hsame₃] at hfills'
    exact (oblivious_countEach oblivious_registerMembers _).eq_withAlerts hreached.firsts hfills'
  -- Functions and imports
  obtain ⟨e, hown, htables⟩ := run.tables_final hreached.live hown₄
  obtain ⟨_, hsame⟩ := run.final_firsts run' hsame₄
  refine ⟨run, run', e, hown, hholds₄.of_tables_eq htables, hbuilt₄.of_tables_eq htables,
    fun name hname => (hholds₄.of_tables_eq htables).exactly_one hname, htypes, ?_, by rw [hsame]; rfl⟩
  rw [run.redeclarations_final hresolved, hredeclared,
    (oblivious_importAll p).filter_alerts_eq run.imports]

/-- A class, and an enum of the same name. -/
def clashingTypes : Program :=
  [.classDecl ⟨⟨"A", ⟨1, 11, 1⟩⟩, true, [], [], none, ⟨1, 1, 14⟩⟩,
    .enumDecl ⟨⟨"A", ⟨2, 6, 1⟩⟩, [⟨"X", ⟨2, 10, 1⟩⟩], false, ⟨2, 1, 12⟩⟩]

/-- The class has the name, and the enum is reported. -/
theorem first_declaration_wins_clash :
    ∃ (run : Registration clashingTypes ⟨.user 0, Session.walk 0⟩ rootState) (e : Environment),
      run.final.own? ⟨.user 0, Session.walk 0⟩ = some e ∧ e.enums.get? "A" = none ∧
      (e.classes.get? "A").map ClassInfo.bare =
        some { ty := ⟨.user 0, "A"⟩, span := ⟨1, 11, 1⟩, isPub := true } ∧
      run.counts.types = 1 ∧
      run.final.alerts.alerts.filter (·.kind.isTypeRedeclaration) =
        [{ kind := .redeclaration "A" "enum", span := ⟨2, 6, 1⟩, more := [⟨1, 11, 1⟩] }] := by
  obtain ⟨run, -, e, hown, hholds, -, -, htypes, halerts, -⟩ :=
    first_declaration_wins (p := clashingTypes) 0 walks_rootState rfl (by decide)
  exact ⟨run, e, hown, hholds.enums "A", hholds.classes "A", htypes, halerts⟩

end Declare

end HybroidSema
