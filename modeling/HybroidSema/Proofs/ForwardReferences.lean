import HybroidSema.Proofs.AliasCycles
import HybroidSema.Proofs.MemberReadings

/-!
# Forward references

The steps of a registration read what earlier steps wrote: members and functions are registered once
every type has its name and every alias its type. So a signature may mention a declaration further
down, and the order of the declarations shows nowhere in what is registered, but for the aliases,
which are settled in theirs.

* `Environment.SameTypes`: the same entries under every name.
* `afterAliases` and `runs_settled`: the resolution of aliases, as a change of the environment.
* `Filled` and `runs_fills`: the members of classes and entities.
* `Bound` and `runs_binds`: the functions.
* `registered_as_read`: what is registered for a program.
* `order_of_declarations_is_free`.
-/

namespace HybroidSema

/-! ## Declarations by name -/

/-- If at most one item has a property, the order does not matter when looking for it. -/
theorem find?_eq_of_perm {α : Type} {p : α → Bool} {l l' : List α}
    (hunique : ∀ a ∈ l, ∀ b ∈ l, p a = true → p b = true → a = b) (hperm : l.Perm l') :
    l'.find? p = l.find? p := by
  cases hfind : l.find? p with
  | none =>
    rw [List.find?_eq_none] at hfind ⊢
    exact fun a ha => hfind a (hperm.mem_iff.2 ha)
  | some a =>
    have ha := List.mem_of_find?_eq_some hfind
    obtain ⟨b, hb⟩ := Option.isSome_iff_exists.1
      (List.find?_isSome.2 ⟨a, hperm.mem_iff.1 ha, List.find?_some hfind⟩)
    have hmem := hperm.mem_iff.2 (List.mem_of_find?_eq_some hb)
    rw [hb, hunique b hmem a ha (List.find?_some hb) (List.find?_some hfind)]

/-- Items with different keys are found by them. -/
theorem eq_of_nodup_filterMap {α β : Type} {key : α → Option β} {l : List α}
    (h : (l.filterMap key).Nodup) {a b : α} {k : β} (ha : a ∈ l) (hb : b ∈ l)
    (hka : key a = some k) (hkb : key b = some k) : a = b := by
  induction l with
  | nil => cases ha
  | cons first rest ih =>
    have hmem {c : α} (hc : c ∈ rest) (hkc : key c = some k) : k ∈ rest.filterMap key :=
      List.mem_filterMap.2 ⟨c, hc, hkc⟩
    have hfirst (hkfirst : key first = some k) : k ∉ rest.filterMap key := by
      rw [List.filterMap_cons_some hkfirst] at h
      exact (List.nodup_cons.1 h).1
    rcases List.mem_cons.1 ha with hfirstA | ha <;> rcases List.mem_cons.1 hb with hfirstB | hb
    · rw [hfirstA, hfirstB]
    · exact absurd (hmem hb hkb) (hfirst (hfirstA ▸ hka))
    · exact absurd (hmem ha hka) (hfirst (hfirstB ▸ hkb))
    · exact ih (h.sublist ((List.sublist_cons_self ..).filterMap key)) ha hb

/-- The function that a statement declares, if it declares one. -/
def Stmt.function? : Stmt → Option FunctionDecl
  | .function decl => some decl
  | _ => none

namespace Stmt

variable (types : String → Option DeclaredType) (id : EnvId)

/-- What a statement registers as a class. -/
def readClass? : Stmt → Option ClassInfo
  | .classDecl decl => some (decl.read types id)
  | _ => none

/-- What a statement registers as an entity. -/
def readEntity? : Stmt → Option EntityInfo
  | .entityDecl decl => some (decl.read types id)
  | _ => none

end Stmt

namespace Program

/-- The names of the top-level functions of a program. -/
def functionNames (p : Program) : List String := (p.filterMap Stmt.function?).map (·.name.name)

/-- The first top-level function of a name. -/
def firstFunction? (p : Program) (name : String) : Option FunctionDecl :=
  (p.filterMap Stmt.function?).find? (·.name.name == name)

variable {p q : Program} {name : String}

theorem first?_eq_of_perm (hnames : p.typeNames.Nodup) (hperm : p.Perm q) (name : String) :
    q.first? name = p.first? name := by
  refine find?_eq_of_perm (fun a ha b hb hda hdb => ?_) hperm
  have hkey {stmt : Stmt} (h : stmt.declares name = true) :
      stmt.typeIdent?.map (·.name) = some name := by
    simpa [Stmt.declares, Option.any_eq_true] using h
  rw [typeNames, List.map_filterMap] at hnames
  exact eq_of_nodup_filterMap hnames ha hb (hkey hda) (hkey hdb)

theorem firstFunction?_eq_of_perm (hnames : p.functionNames.Nodup) (hperm : p.Perm q)
    (name : String) : q.firstFunction? name = p.firstFunction? name := by
  refine find?_eq_of_perm (fun a ha b hb hna hnb => ?_) (hperm.filterMap _)
  refine List.inj_on_of_nodup_map hnames ha hb ?_
  rw [beq_iff_eq] at hna hnb
  rw [hna, hnb]

/-- With distinct names, every declaration is the first one of its name. -/
theorem first?_of_nodup (hnames : p.typeNames.Nodup) {before rest : Program} {stmt : Stmt} {id : Ident}
    (hp : p = before ++ stmt :: rest) (hid : stmt.typeIdent? = some id) :
    before.first? id.name = none ∧ p.first? id.name = some stmt := by
  have hfree : before.first? id.name = none := by
    rw [first?_eq_none_iff]
    intro hmem
    have hsplit : p.typeNames = before.typeNames ++ id.name :: typeNames rest := by
      rw [hp]
      simp [typeNames, hid]
    rw [hsplit, List.nodup_append] at hnames
    exact hnames.2.2 _ hmem _ (List.mem_cons_self ..) rfl
  exact ⟨hfree, by rw [first?_split hp hid, hfree, Option.none_or]⟩

/-- Programs with the same aliases, and the same first declarations of all names, settle the same
aliases. -/
theorem ownAliases_eq_of_first?_eq (haliases : q.filterMap Declare.alias? = p.filterMap Declare.alias?)
    (hfirst : ∀ name, q.first? name = p.first? name) : q.ownAliases = p.ownAliases := by
  have howns (name : Ident) : q.owns name = p.owns name := by
    rw [owns, owns, type?_eq_first?, type?_eq_first?, hfirst]
  simp only [ownAliases, haliases, howns]

end Program

/-! ## The same types -/

/-- The environments have the same entries under all names. -/
structure Environment.SameTypes (e e' : Environment) : Prop where
  id : e'.id = e.id
  classes : ∀ name, e'.classes.get? name = e.classes.get? name
  entities : ∀ name, e'.entities.get? name = e.entities.get? name
  enums : ∀ name, e'.enums.get? name = e.enums.get? name
  aliases : ∀ name, e'.aliases.get? name = e.aliases.get? name

namespace Environment.SameTypes

variable {e e' : Environment}

theorem declaredType? (h : e.SameTypes e') : e'.declaredType? = e.declaredType? := by
  funext name
  simp only [Environment.declaredType?, h.classes, h.entities, h.enums, h.aliases, h.id]

theorem withAlias (h : e.SameTypes e') (name : String) (ty : Ty) :
    (Declare.withAlias name ty e).SameTypes (Declare.withAlias name ty e') where
  id := h.id
  classes := h.classes
  entities := h.entities
  enums := h.enums
  aliases other := by rw [Declare.get?_withAlias, Declare.get?_withAlias, h.aliases]

end Environment.SameTypes

/-- Nothing is imported and no generic parameter is in scope. -/
structure Environment.IsBare (e : Environment) : Prop where
  imports : e.imports = []
  generics : ∀ name, e.scopes.hasGeneric name = false

namespace Declare

open Check

variable {c : Context} {s : State} {p q : Program} {e e' env : Environment} {id : EnvId}
  {types : String → Option DeclaredType} {before : Program} {stmt : Stmt} {name : String}

/-! ## Resolving aliases -/

/-- The environment once aliases were settled, the last one of the list first. -/
def afterAliases (e : Environment) : List AliasStep → Environment
  | [] => e
  | .cycle _ :: earlier => afterAliases e earlier
  | .resolve decl :: earlier =>
    let before := afterAliases e earlier
    withAlias decl.name.name (decl.ty.reading (standsFor before.declaredType? [])) before

theorem sameTypes_afterAliases (h : e.SameTypes e') (done : List AliasStep) :
    (afterAliases e done).SameTypes (afterAliases e' done) := by
  induction done with
  | nil => exact h
  | cons step earlier ih =>
    cases step with
    | cycle decl => exact ih
    | resolve decl =>
      simp only [afterAliases, ih.declaredType?]
      exact ih.withAlias _ _

/-- Nothing but aliases is changed. -/
theorem afterAliases_eq (e : Environment) (done : List AliasStep) :
    afterAliases e done = { e with aliases := (afterAliases e done).aliases } := by
  induction done with
  | nil => rfl
  | cons step earlier ih =>
    cases step with
    | cycle decl => exact ih
    | resolve decl =>
      unfold afterAliases withAlias
      rw [ih]

theorem isBare_afterAliases (h : e.IsBare) (done : List AliasStep) : (afterAliases e done).IsBare := by
  rw [afterAliases_eq]
  exact ⟨h.imports, h.generics⟩

/-- Every name is declared where it was. -/
theorem declaredSpan?_afterAliases (e : Environment) (done : List AliasStep) :
    (afterAliases e done).declaredSpan? = e.declaredSpan? := by
  induction done with
  | nil => rfl
  | cons step earlier ih =>
    cases step with
    | cycle decl => exact ih
    | resolve decl =>
      rw [← ih]
      funext name
      simp only [afterAliases, Environment.declaredSpan?, get?_withAlias]
      split <;> simp [withAlias, Function.comp_def]

/-- In a bare environment names stand for its own types. -/
theorem knowsTypes_own (hown : s.own? c = some e) (hbare : e.IsBare) :
    KnowsTypes c e.declaredType? [] s :=
  ⟨e, hown, fun _ => rfl, hbare.imports, by simpa using hbare.generics⟩

/-- Settling aliases with unqualified targets. -/
theorem runs_settled (hown : s.own? c = some e) (hbare : e.IsBare) (done : List AliasStep)
    (hunqualified : ∀ step ∈ done, Unqualified [step.decl.ty]) :
    ∃ added, performAll done c s =
      .ok ((), (s.modifyOwn c fun _ => afterAliases e done).addAlerts added) := by
  induction done with
  | nil => exact ⟨[], by rw [afterAliases, modifyOwn_eq_self hown rfl, State.addAlerts_nil]; rfl⟩
  | cons step earlier ih =>
    obtain ⟨hstep, hearlier⟩ := List.forall_mem_cons.1 hunqualified
    obtain ⟨added, hrun⟩ := ih hearlier
    unfold performAll
    rw [bind_apply_ok hrun]
    cases step with
    | cycle decl => exact ⟨_, by rw [AliasStep.perform, report_eq, State.addAlerts_addAlerts]; rfl⟩
    | resolve decl =>
      have hown' : ((s.modifyOwn c fun _ => afterAliases e earlier).addAlerts added).own? c =
          some (afterAliases e earlier) := State.own?_modifyOwn_addAlerts hown _ _
      obtain ⟨more, hmore⟩ :=
        (reads_resolveType hstep).apply (knowsTypes_own hown' (isBare_afterAliases hbare earlier))
      have hown'' : (((s.modifyOwn c fun _ => afterAliases e earlier).addAlerts added).addAlerts
          more).own? c = some (afterAliases e earlier) := hown'
      refine ⟨added ++ more, (bind_apply_ok hmore).trans ((setAlias_eq hown'' _ _).trans ?_)⟩
      rw [State.modifyOwn_addAlerts, State.modifyOwn_addAlerts, modifyOwn_modifyOwn,
        State.addAlerts_addAlerts]
      rfl

/-! ## Members -/

/-- The environment with the members of a class. -/
def withClass (read : ClassInfo) (env : Environment) : Environment :=
  { env with
    classes := env.classes.modify read.ty.name fun info =>
      { info with members := read.members, constructor := read.constructor } }

/-- The environment with the members of an entity. -/
def withEntity (read : EntityInfo) (env : Environment) : Environment :=
  { env with
    entities := env.entities.modify read.ty.name fun info =>
      { info with
        members := read.members
        spawner := read.spawner
        destroyer := read.destroyer
        callbacks := read.callbacks } }

/-- Members change neither what a name stands for nor where it is declared. -/
theorem names_withClass (read : ClassInfo) (env : Environment) :
    (withClass read env).declaredType? = env.declaredType? ∧
      (withClass read env).declaredSpan? = env.declaredSpan? := by
  constructor <;> funext name <;>
    simp only [Environment.declaredType?, Environment.declaredSpan?, withClass, Table.get?_modify] <;>
    split <;> simp [Function.comp_def]

theorem names_withEntity (read : EntityInfo) (env : Environment) :
    (withEntity read env).declaredType? = env.declaredType? ∧
      (withEntity read env).declaredSpan? = env.declaredSpan? := by
  constructor <;> funext name <;>
    simp only [Environment.declaredType?, Environment.declaredSpan?, withEntity,
      Table.get?_modify] <;>
    split <;> simp [Function.comp_def]

/-- The step makes one environment of the other, and adds nothing else but alerts. -/
def Changes (c : Context) (env : Environment) (m : Check Nat) (env' : Environment) : Prop :=
  ∀ s, s.own? c = some env →
    ∃ count added, m c s = .ok (count, (s.modifyOwn c fun _ => env').addAlerts added)

namespace Changes

variable {α : Type} {m : Check α} {a : α} {k : α → Check Nat} {env' : Environment}

/-- Something is read before the change. -/
theorem bind (hbare : env.IsBare) (hm : Reads c env.declaredType? [] m a)
    (hk : Changes c env (k a) env') : Changes c env (m >>= k) env' := by
  intro s hown
  obtain ⟨first, hfirst⟩ := hm.apply (knowsTypes_own hown hbare)
  obtain ⟨count, added, hrest⟩ := hk (s.addAlerts first) hown
  refine ⟨count, first ++ added, ?_⟩
  rw [bind_apply_ok hfirst, hrest, State.modifyOwn_addAlerts, State.addAlerts_addAlerts]

theorem modify (f : Environment → Environment) (count : Nat) :
    Changes c env (modifyEnvironment f >>= fun _ => pure count) (f env) := by
  intro s hown
  refine ⟨count, [], (bind_apply_ok (modifyEnvironment_eq hown f)).trans ?_⟩
  rw [State.addAlerts_nil, State.modifyOwn_eq_const hown f]
  rfl

/-- A declaration that has its name. -/
theorem owned {name : Ident} {m other : Check Nat}
    (howns : env.declaredSpan? name.name = some name.span) (hm : Changes c env m env') :
    Changes c env (ownsName name >>= fun owns => if owns then m else other) env' := by
  intro s hown
  have howns' : ownsName name c s = .ok (true, s) := by
    rw [ownsName_eq hown, howns, beq_self_eq_true]
  rw [bind_apply_ok howns']
  exact hm s hown

end Changes

/-- A class that has its name gets the members that it is read with. -/
theorem changes_registerClass (hbare : env.IsBare) {decl : ClassDecl} (h : Unqualified decl.writtenTypes)
    (howns : env.declaredSpan? decl.name.name = some decl.name.span) :
    Changes c env (registerClass decl) (withClass (decl.read env.declaredType? c.env) env) := by
  obtain ⟨hmembers, hconstructor⟩ := Unqualified.append_iff.1 h
  obtain ⟨hfields, hmethods⟩ := Unqualified.append_iff.1 hmembers
  rw [Unqualified.flatMap_iff] at hfields hmethods hconstructor
  obtain ⟨count, hmethods'⟩ := reads_registerMethods _ hmethods
  exact .owned howns <| .bind hbare (reads_registerFields hfields) <|
    .bind hbare hmethods' <|
    .bind hbare (reads_registerConstructor (by simpa using hconstructor)) <| .modify _ _

/-- An entity that has its name gets the members that it is read with. -/
theorem changes_registerEntity (hbare : env.IsBare) {decl : EntityDecl} (h : Unqualified decl.writtenTypes)
    (howns : env.declaredSpan? decl.name.name = some decl.name.span) :
    Changes c env (registerEntity decl) (withEntity (decl.read env.declaredType? c.env) env) := by
  obtain ⟨hmembers, hfunctions⟩ := Unqualified.append_iff.1 h
  obtain ⟨hfields, hmethods⟩ := Unqualified.append_iff.1 hmembers
  rw [Unqualified.flatMap_iff] at hfields hmethods hfunctions
  obtain ⟨count, hmethods'⟩ := reads_registerMethods _ hmethods
  exact .owned howns <| .bind hbare (reads_registerFields hfields) <|
    .bind hbare hmethods' <|
    .bind hbare (reads_registerLifecycles hfunctions) <|
    .bind hbare (reads_requireLifecycle _ _ _) <|
    .bind hbare (reads_requireLifecycle _ _ _) <| .modify _ _

/-- What stands in the tables once members were registered for the first statements of a program. -/
structure Filled (id : EnvId) (before : Program) (e e' : Environment) : Prop where
  classes : ∀ name, e'.classes.get? name =
    ((before.first? name).bind (·.readClass? e.declaredType? id)).or (e.classes.get? name)
  entities : ∀ name, e'.entities.get? name =
    ((before.first? name).bind (·.readEntity? e.declaredType? id)).or (e.entities.get? name)
  types : e'.declaredType? = e.declaredType?
  spans : e'.declaredSpan? = e.declaredSpan?
  kept : e' = { e with classes := e'.classes, entities := e'.entities }

theorem filled_nil (id : EnvId) (e : Environment) : Filled id [] e e :=
  ⟨fun _ => rfl, fun _ => rfl, rfl, rfl, rfl⟩

theorem Filled.isBare (h : Filled id before e e') (hbare : e.IsBare) : e'.IsBare := by
  rw [h.kept]
  exact ⟨hbare.imports, hbare.generics⟩

/-- A statement without members. -/
theorem Filled.skip (h : Filled id before e e') (hclass : stmt.readClass? e.declaredType? id = none)
    (hentity : stmt.readEntity? e.declaredType? id = none) : Filled id (before ++ [stmt]) e e' := by
  have hbind {α : Type} {read? : Stmt → Option α} (hnone : read? stmt = none) (name : String) :
      (Program.first? (before ++ [stmt]) name).bind read? = (before.first? name).bind read? := by
    rw [Program.first?_append_singleton]
    cases before.first? name with
    | some first => rfl
    | none => cases stmt.declares name <;> simp [hnone]
  exact ⟨fun name => (hbind hclass name) ▸ h.classes name,
    fun name => (hbind hentity name) ▸ h.entities name, h.types, h.spans, h.kept⟩

/-- A class whose name no earlier statement declares. -/
theorem Filled.addClass (h : Filled id before e e') {decl : ClassDecl}
    (hfree : before.first? decl.name.name = none)
    (hentry : e.classes.get? decl.name.name = (Stmt.classDecl decl).classInfo? id) :
    Filled id (before ++ [.classDecl decl]) e (withClass (decl.read e.declaredType? id) e') := by
  have hnames := names_withClass (decl.read e.declaredType? id) e'
  have hident : (Stmt.classDecl decl).typeIdent? = some decl.name := rfl
  have hfirst := Program.first?_append_free hident hfree
  refine ⟨fun name => ?_, fun name => ?_, hnames.1.trans h.types, hnames.2.trans h.spans, ?_⟩
  · change (e'.classes.modify decl.name.name _).get? name = _
    rw [Table.get?_modify, hfirst, h.classes]
    split
    · next heq =>
      rw [heq, hfree, hentry]
      rfl
    · rfl
  · change e'.entities.get? name = _
    rw [h.entities, hfirst]
    split
    · next heq =>
      rw [heq, hfree]
      rfl
    · rfl
  · unfold withClass
    rw [h.kept]

/-- An entity whose name no earlier statement declares. -/
theorem Filled.addEntity (h : Filled id before e e') {decl : EntityDecl}
    (hfree : before.first? decl.name.name = none)
    (hentry : e.entities.get? decl.name.name = (Stmt.entityDecl decl).entityInfo? id) :
    Filled id (before ++ [.entityDecl decl]) e (withEntity (decl.read e.declaredType? id) e') := by
  have hnames := names_withEntity (decl.read e.declaredType? id) e'
  have hident : (Stmt.entityDecl decl).typeIdent? = some decl.name := rfl
  have hfirst := Program.first?_append_free hident hfree
  refine ⟨fun name => ?_, fun name => ?_, hnames.1.trans h.types, hnames.2.trans h.spans, ?_⟩
  · change e'.classes.get? name = _
    rw [h.classes, hfirst]
    split
    · next heq =>
      rw [heq, hfree]
      rfl
    · rfl
  · change (e'.entities.modify decl.name.name _).get? name = _
    rw [Table.get?_modify, hfirst, h.entities]
    split
    · next heq =>
      rw [heq, hfree, hentry]
      rfl
    · rfl
  · unfold withEntity
    rw [h.kept]

/-- What a fresh environment holds once types were claimed and aliases were settled in it. -/
structure HoldsClaims (id : EnvId) (p : Program) (env e : Environment) : Prop where
  bare : e.IsBare
  scopes : e.scopes = {}
  classes : ∀ name, e.classes.get? name = (p.first? name).bind (·.classInfo? id)
  entities : ∀ name, e.entities.get? name = (p.first? name).bind (·.entityInfo? id)
  enums : ∀ name, e.enums.get? name = (p.first? name).bind (·.enumInfo? id)
  spans : ∀ name, e.declaredSpan? name = (p.type? name).map (·.span)
  id : e.id = env.id

theorem Claimed.holdsClaims (h : Claimed id p env e) (hfresh : env.IsFresh) (done : List AliasStep) :
    HoldsClaims id p env (afterAliases e done) := by
  have hscopes : (afterAliases e done).scopes = {} := by
    rw [afterAliases_eq, h.kept]
    exact congrArg Environment.scopes hfresh
  have himports : (afterAliases e done).imports = [] := by
    rw [afterAliases_eq, h.kept]
    exact congrArg Environment.imports hfresh
  refine ⟨⟨himports, by rw [hscopes]; exact fun _ => rfl⟩, hscopes, fun name => ?_, fun name => ?_,
    fun name => ?_, fun name => ?_, ?_⟩
  · rw [afterAliases_eq, h.classes]
  · rw [afterAliases_eq, h.entities]
  · rw [afterAliases_eq, h.enums]
  · rw [declaredSpan?_afterAliases, h.declaredSpan?]
  · rw [afterAliases_eq, h.kept]

/-- The members of all classes and entities of a program are registered as they read. -/
theorem runs_fills (hown : s.own? c = some e) (hclaims : HoldsClaims c.env p env e)
    (hnames : p.typeNames.Nodup) (hunqualified : ∀ stmt ∈ p, Unqualified stmt.writtenTypes) :
    Runs (countEach registerMembers p) c s fun _ s' => ∃ added e',
      s' = (s.modifyOwn c fun _ => e').addAlerts added ∧ Filled c.env p e e' := by
  refine runs_countEach (I := fun before _ t => ∃ added e',
    t = (s.modifyOwn c fun _ => e').addAlerts added ∧ Filled c.env before e e')
    (fun before stmt rest k t hp ⟨added, e', ht, hfilled⟩ => ?_)
    ⟨[], e, by rw [modifyOwn_eq_self hown rfl, State.addAlerts_nil], filled_nil c.env e⟩
  have hown' : t.own? c = some e' := ht ▸ State.own?_modifyOwn_addAlerts hown e' added
  have hbare := hfilled.isBare hclaims.bare
  have hunqualified' : Unqualified stmt.writtenTypes := hunqualified stmt (by simp [hp])
  have hfirst {id : Ident} (hid : stmt.typeIdent? = some id) :=
    Program.first?_of_nodup hnames hp hid
  have howns {id : Ident} (hid : stmt.typeIdent? = some id) :
      e'.declaredSpan? id.name = some id.span := by
    rw [hfilled.spans, hclaims.spans, Program.type?_eq_first?, (hfirst hid).2, Option.bind_some, hid]
    rfl
  have hlater {m : Check Nat} {e'' : Environment} (hm : Changes c e' m e'')
      (hfilled : Filled c.env (before ++ [stmt]) e e'') : Runs m c t fun _ t' => ∃ added e',
        t' = (s.modifyOwn c fun _ => e').addAlerts added ∧ Filled c.env (before ++ [stmt]) e e' := by
    obtain ⟨count, more, hrun⟩ := hm t hown'
    refine ⟨count, _, hrun, added ++ more, e'', ?_, hfilled⟩
    rw [ht, State.modifyOwn_addAlerts_twice]
  cases stmt with
  | classDecl decl =>
    have hentry := hclaims.classes decl.name.name
    rw [(hfirst rfl).2, Option.bind_some] at hentry
    have hadded := hfilled.addClass (hfirst rfl).1 hentry
    rw [← hfilled.types] at hadded
    exact hlater (changes_registerClass hbare hunqualified' (howns rfl)) hadded
  | entityDecl decl =>
    have hentry := hclaims.entities decl.name.name
    rw [(hfirst rfl).2, Option.bind_some] at hentry
    have hadded := hfilled.addEntity (hfirst rfl).1 hentry
    rw [← hfilled.types] at hadded
    exact hlater (changes_registerEntity hbare hunqualified' (howns rfl)) hadded
  | _ => exact .pure ⟨added, e', ht, hfilled.skip rfl rfl⟩

/-! ## Functions -/

/-- The environment with a function in its root scope, if the name is free there. -/
def withFunction (read : Variable) (env : Environment) : Environment :=
  match env.scopes.declareRoot read with
  | .ok scopes => { env with scopes := scopes }
  | .error _ => env

theorem rootVariable?_withFunction (read : Variable) (env : Environment) (name : String) :
    (withFunction read env).rootVariable? name =
      (env.rootVariable? name).or (if read.name = name then some read else none) := by
  unfold withFunction ScopeStack.declareRoot Scope.declare Environment.rootVariable?
  cases htaken : env.scopes.root.bindings.get? read.name with
  | some existing =>
    change env.scopes.root.bindings.get? name = _
    by_cases heq : read.name = name
    · subst heq
      simp [htaken]
    · simp [heq]
  | none =>
    change (env.scopes.root.bindings.insert read.name read).get? name = _
    rw [Table.get?_insert]
    by_cases heq : read.name = name
    · subst heq
      simp [htaken]
    · simp [heq, Ne.symm heq]

theorem withFunction_eq (read : Variable) (env : Environment) :
    withFunction read env = { env with
      scopes := { env.scopes with
        root := { env.scopes.root with
          bindings := (withFunction read env).scopes.root.bindings } } } := by
  unfold withFunction ScopeStack.declareRoot Scope.declare
  cases env.scopes.root.bindings.get? read.name <;> rfl

/-- A function is bound as it reads, if its name is free. -/
theorem changes_registerFunction (hbare : env.IsBare) {decl : FunctionDecl}
    (h : Unqualified decl.writtenTypes) :
    Changes c env (registerFunction (.function decl))
      (withFunction (decl.read env.declaredType?) env) := by
  refine .bind hbare (reads_resolveSignature h) fun s hown => ?_
  rw [bind_apply_ok (scopes_eq hown)]
  unfold withFunction FunctionDecl.read
  cases env.scopes.declareRoot _ with
  | ok stack =>
    refine ⟨1, [], (bind_apply_ok (modifyScopes_eq hown _)).trans ?_⟩
    rw [State.addAlerts_nil, State.modifyOwn_eq_const hown]
    rfl
  | error error =>
    dsimp only
    rw [modifyOwn_eq_self hown rfl]
    cases error <;> exact ⟨0, _, bind_apply_ok (alert_eq _)⟩

/-- What stands in the root scope once the functions among the first statements of a program were
bound. -/
structure Bound (before : Program) (e e' : Environment) : Prop where
  bindings : ∀ name, e'.rootVariable? name =
    (before.firstFunction? name).map (·.read e.declaredType?)
  kept : e' = { e with
    scopes := { e.scopes with
      root := { e.scopes.root with bindings := e'.scopes.root.bindings } } }

theorem Bound.isBare (h : Bound before e e') (hbare : e.IsBare) : e'.IsBare := by
  rw [h.kept]
  exact ⟨hbare.imports, by simpa [ScopeStack.hasGeneric, ScopeStack.chain] using hbare.generics⟩

theorem Bound.skip (h : Bound before e e') (hnone : stmt.function? = none) :
    Bound (before ++ [stmt]) e e' := by
  refine ⟨fun name => ?_, h.kept⟩
  rw [h.bindings, Program.firstFunction?, Program.firstFunction?, List.filterMap_append]
  simp [hnone]

theorem Bound.add (h : Bound before e e') (decl : FunctionDecl) :
    Bound (before ++ [.function decl]) e (withFunction (decl.read e.declaredType?) e') := by
  refine ⟨fun name => ?_, ?_⟩
  · have hfirst : Program.firstFunction? (before ++ [.function decl]) name =
        (before.firstFunction? name).or (if decl.name.name = name then some decl else none) := by
      rw [Program.firstFunction?, List.filterMap_append, List.find?_append, ← Program.firstFunction?]
      by_cases heq : decl.name.name = name <;> simp [Stmt.function?, heq]
    have hname : (decl.read e.declaredType?).name = decl.name.name := rfl
    rw [rootVariable?_withFunction, h.bindings, hfirst, hname, Option.map_or]
    split <;> rfl
  · rw [withFunction_eq, h.kept]

/-- The functions of a program are bound as they read. -/
theorem runs_binds (hown : s.own? c = some e) (hbare : e.IsBare)
    (hfresh : ∀ name, e.rootVariable? name = none)
    (hunqualified : ∀ stmt ∈ p, Unqualified stmt.writtenTypes) :
    Runs (countEach registerFunction p) c s fun _ s' => ∃ added e',
      s' = (s.modifyOwn c fun _ => e').addAlerts added ∧ Bound p e e' := by
  refine runs_countEach (I := fun before _ t => ∃ added e',
    t = (s.modifyOwn c fun _ => e').addAlerts added ∧ Bound before e e')
    (fun before stmt rest k t hp ⟨added, e', ht, hbound⟩ => ?_)
    ⟨[], e, by rw [modifyOwn_eq_self hown rfl, State.addAlerts_nil], hfresh, rfl⟩
  have hown' : t.own? c = some e' := ht ▸ State.own?_modifyOwn_addAlerts hown e' added
  have htypes : e'.declaredType? = e.declaredType? := by rw [hbound.kept]; rfl
  cases stmt with
  | function decl =>
    obtain ⟨count, more, hrun⟩ := changes_registerFunction (hbound.isBare hbare)
      (hunqualified (.function decl) (by simp [hp])) t hown'
    rw [htypes] at hrun
    refine ⟨count, _, hrun, added ++ more, _, ?_, hbound.add decl⟩
    rw [ht, State.modifyOwn_addAlerts_twice]
  | _ => exact .pure ⟨added, e', ht, hbound.skip rfl⟩

/-! ## Whole programs -/

/-- The classes, entities, enums and functions of a program are registered as they read where all of
them are declared. -/
structure AsRead (id : EnvId) (p : Program) (e : Environment) : Prop where
  classes : ∀ name, e.classes.get? name = (p.first? name).bind (·.readClass? e.declaredType? id)
  entities : ∀ name, e.entities.get? name = (p.first? name).bind (·.readEntity? e.declaredType? id)
  enums : ∀ name, e.enums.get? name = (p.first? name).bind (·.enumInfo? id)
  functions : ∀ name, e.rootVariable? name = (p.firstFunction? name).map (·.read e.declaredType?)

/-- What the stages of a registration leave behind is what the program reads as. -/
theorem HoldsClaims.asRead {filled : Environment} (hclaims : HoldsClaims id p env e)
    (hfilled : Filled id p e filled) (hbound : Bound p filled e') :
    AsRead id p e' ∧ e'.declaredType? = e.declaredType? ∧ e'.aliases = e.aliases ∧ e'.id = env.id := by
  have htypes : e'.declaredType? = filled.declaredType? := by rw [hbound.kept]; rfl
  refine ⟨⟨fun name => ?_, fun name => ?_, fun name => ?_, fun name => ?_⟩,
    htypes.trans hfilled.types, ?_, ?_⟩
  · have hclasses : e'.classes = filled.classes := by rw [hbound.kept]
    rw [htypes, hfilled.types, hclasses, hfilled.classes, hclaims.classes]
    cases p.first? name with
    | none => rfl
    | some stmt => cases stmt <;> rfl
  · have hentities : e'.entities = filled.entities := by rw [hbound.kept]
    rw [htypes, hfilled.types, hentities, hfilled.entities, hclaims.entities]
    cases p.first? name with
    | none => rfl
    | some stmt => cases stmt <;> rfl
  · rw [hbound.kept, hfilled.kept]
    exact hclaims.enums name
  · rw [htypes]
    exact hbound.bindings name
  · rw [hbound.kept, hfilled.kept]
  · rw [hbound.kept, hfilled.kept]
    exact hclaims.id

/-- A program without imports and qualified names is registered as it reads, once its aliases are
settled. -/
theorem registered_as_read (run : Registration p c s) {o : ScopeStack} (h : Live c s o)
    (hown : s.own? c = some env) (hfresh : env.IsFresh) (huse : p.filterMap use? = [])
    (hunqualified : ∀ stmt ∈ p, Unqualified stmt.writtenTypes) (hnames : p.typeNames.Nodup)
    {done : List AliasStep} (hdone : ∀ step ∈ done, .aliasDecl step.decl ∈ p)
    (hresolves : ∀ {t : State} {e : Environment}, t.own? c = some e →
      (∀ name, e.declaredSpan? name = (p.type? name).map (·.span)) →
      resolveAliases p c t = performAll done c t) :
    ∃ claimed e, Claimed c.env p env claimed ∧ run.final.own? c = some e ∧ AsRead c.env p e ∧
      e.declaredType? = (afterAliases claimed done).declaredType? ∧
      e.aliases = (afterAliases claimed done).aliases ∧ e.id = env.id := by
  obtain ⟨claimed, hown₂, hclaimed⟩ := run.own_claimed_of_use h hown hfresh huse
  have hclaims := hclaimed.holdsClaims hfresh done
  -- Aliases
  have hbare : claimed.IsBare := (hclaimed.holdsClaims hfresh []).bare
  obtain ⟨added₃, hsettled⟩ := runs_settled hown₂ hbare done
    fun step hstep => hunqualified _ (hdone step hstep)
  have hresolved := run.resolves.symm.trans ((hresolves hown₂ hclaimed.declaredSpan?).trans hsettled)
  have hown₃ : run.resolved.own? c = some (afterAliases claimed done) := by
    rw [(Prod.mk.inj (Except.ok.inj hresolved)).2]
    exact State.own?_modifyOwn_addAlerts hown₂ _ _
  -- Members
  obtain ⟨added₄, filled, hfills, hfilled⟩ :=
    (runs_fills hown₃ hclaims hnames hunqualified).apply run.fills
  have hown₄ : run.filled.own? c = some filled := hfills ▸ State.own?_modifyOwn_addAlerts hown₃ _ _
  -- Functions
  have hfree (name : String) : filled.rootVariable? name = none := by
    rw [Environment.rootVariable?, hfilled.kept, hclaims.scopes]
    rfl
  obtain ⟨added₅, e, hbinds, hbound⟩ :=
    (runs_binds hown₄ (hfilled.isBare hclaims.bare) hfree hunqualified).apply run.binds
  have hown₅ : run.final.own? c = some e := by
    have hnone : walkImports p c run.bound = .ok ((), run.bound) := by
      rw [walkImports, huse]
      rfl
    have hfinal : run.final = run.bound := by simpa using run.walks.symm.trans hnone
    rw [hfinal, hbinds]
    exact State.own?_modifyOwn_addAlerts hown₄ _ _
  exact ⟨claimed, e, hclaimed, hown₅, hclaims.asRead hfilled hbound⟩

/-- Programs with the same first declarations of all names claim the same. -/
theorem Claimed.sameTypes (h : Claimed id p env e) (h' : Claimed id q env e')
    (hfirst : ∀ name, q.first? name = p.first? name) : e.SameTypes e' := by
  refine ⟨?_, fun name => ?_, fun name => ?_, fun name => ?_, fun name => ?_⟩
  · rw [h.kept, h'.kept]
  · rw [h.classes, h'.classes, hfirst]
  · rw [h.entities, h'.entities, hfirst]
  · rw [h.enums, h'.enums, hfirst]
  · rw [h.aliases, h'.aliases, hfirst]

/-- Programs with the same first declarations of all names are registered alike, if the aliases stand
for the same. -/
theorem AsRead.sameTypes (h : AsRead id p e) (h' : AsRead id q e') (hid : e'.id = e.id)
    (hfirst : ∀ name, q.first? name = p.first? name) (htypes : e'.declaredType? = e.declaredType?)
    (haliases : ∀ name, e'.aliases.get? name = e.aliases.get? name) : e.SameTypes e' := by
  refine ⟨hid, fun name => ?_, fun name => ?_, fun name => ?_, haliases⟩
  · rw [h.classes, h'.classes, hfirst, htypes]
  · rw [h.entities, h'.entities, hfirst, htypes]
  · rw [h.enums, h'.enums, hfirst]

/-- In a body without imports and qualified names, whose types and functions have different names, the
order of the declarations is free, as long as the aliases keep theirs: the same classes, entities,
enums and aliases are registered, and the same functions are bound. All of them are registered as they
read where the whole body is declared, so a signature may mention any declaration of it, before or
after its own. -/
theorem order_of_declarations_is_free (depth : Nat) (h : Walks id s env) (hfresh : env.IsFresh)
    (huse : p.filterMap use? = []) (hunqualified : ∀ stmt ∈ p, Unqualified stmt.writtenTypes)
    (htypes : p.typeNames.Nodup) (hfunctions : p.functionNames.Nodup) (hperm : p.Perm q)
    (haliases : q.filterMap alias? = p.filterMap alias?) :
    let c : Context := ⟨id, Session.walk depth⟩
    ∃ (run : Registration p c s) (run' : Registration q c s) (e e' : Environment),
      run.final.own? c = some e ∧ run'.final.own? c = some e' ∧ e.SameTypes e' ∧
      (∀ name, e'.rootVariable? name = e.rootVariable? name) ∧ AsRead id p e ∧ AsRead id q e' := by
  intro c
  have hlive : Live c s env.scopes.outline := h.live depth
  obtain ⟨run, -⟩ := Registration.exists_of_live hlive p
  obtain ⟨run', -⟩ := Registration.exists_of_live hlive q
  have hfirst := Program.first?_eq_of_perm htypes hperm
  have howned := Program.ownAliases_eq_of_first?_eq haliases hfirst
  obtain ⟨done, hsettles, hresolves⟩ := settles_resolveAliases p
  obtain ⟨hplan, -⟩ := hsettles.plan p.keyed_aliasTable .nil (by simp)
  have hdone (step : AliasStep) (hstep : step ∈ done) : .aliasDecl step.decl ∈ p :=
    hplan.mem_program hstep
  obtain ⟨claimed, e, hclaimed, hown, hread, hdeclared, haliased, hid⟩ :=
    registered_as_read run hlive h.registered hfresh huse hunqualified htypes hdone (hresolves rfl)
  have huse' : q.filterMap use? = [] := by
    rw [← List.perm_nil, ← huse]
    exact (hperm.filterMap _).symm
  have hnames' : q.typeNames.Nodup := by
    refine List.Perm.nodup_iff ?_ |>.1 htypes
    exact (hperm.filterMap _).map _
  obtain ⟨claimed', e', hclaimed', hown', hread', hdeclared', haliased', hid'⟩ :=
    registered_as_read run' hlive h.registered hfresh huse'
      (fun stmt hstmt => hunqualified stmt (hperm.mem_iff.2 hstmt)) hnames'
      (fun step hstep => hperm.mem_iff.1 (hdone step hstep)) (hresolves howned)
  have hsame := sameTypes_afterAliases (hclaimed.sameTypes hclaimed' hfirst) done
  have hstands : e'.declaredType? = e.declaredType? := by
    rw [hdeclared, hdeclared', hsame.declaredType?]
  refine ⟨run, run', e, e', hown, hown', hread.sameTypes hread' (hid'.trans hid.symm) hfirst hstands
    fun name => by rw [haliased, haliased', hsame.aliases], fun name => ?_, hread, hread'⟩
  rw [hread.functions, hread'.functions, Program.firstFunction?_eq_of_perm hfunctions hperm, hstands]

/-- A function that returns an instance of a class. -/
def makerFunction : FunctionDecl :=
  ⟨⟨"make", ⟨1, 4, 4⟩⟩, [], [], [writtenName "A" ⟨1, 14, 1⟩], [], false, ⟨1, 1, 20⟩⟩

/-- The class. -/
def madeClass : ClassDecl := ⟨⟨"A", ⟨2, 7, 1⟩⟩, false, [], [], none, ⟨2, 1, 10⟩⟩

/-- The function returns the class, whichever of the two is declared first. -/
theorem order_of_declarations_is_free_swapped :
    ∃ (run : Registration [.function makerFunction, .classDecl madeClass]
        ⟨.user 0, Session.walk 0⟩ rootState)
      (run' : Registration [.classDecl madeClass, .function makerFunction]
        ⟨.user 0, Session.walk 0⟩ rootState) (e e' : Environment),
      run.final.own? ⟨.user 0, Session.walk 0⟩ = some e ∧
      run'.final.own? ⟨.user 0, Session.walk 0⟩ = some e' ∧
      e.rootVariable? "make" = e'.rootVariable? "make" ∧
      (e.rootVariable? "make").map (·.value) =
        some (.function { params := [], returns := [.named e.id "A" .classDecl] }) := by
  obtain ⟨run, run', e, e', hown, hown', -, hsame, hread, -⟩ := order_of_declarations_is_free
    (p := [.function makerFunction, .classDecl madeClass])
    (q := [.classDecl madeClass, .function makerFunction]) 0 walks_rootState rfl rfl
    (by unfold Unqualified; decide) (by decide) (by decide) (.swap ..) rfl
  refine ⟨run, run', e, e', hown, hown', (hsame "make").symm, ?_⟩
  have hclass : e.declaredType? "A" = some ⟨.named e.id "A" .classDecl, false⟩ := by
    rw [Environment.declaredType?, hread.classes]
    rfl
  have hreturns : TypeExpr.readings (standsFor e.declaredType? []) makerFunction.returns =
      [.named e.id "A" .classDecl] := by
    change [standsFor e.declaredType? [] none "A"] = _
    simp [standsFor, hclass]
  rw [hread.functions]
  change some (Value.function { generics := [], params := [], returns := TypeExpr.readings _ _ }) = _
  rw [← hreturns]
  rfl

end Declare

end HybroidSema
