import HybroidSema.Proofs.Claimed
import HybroidSema.Proofs.Forms
import HybroidSema.Proofs.Signatures
import Mathlib.Data.Set.Operations

/-!
# What an environment has registered

Once the declarations of a program are registered, the classes, the entities and the functions of
its environment come from declarations of that program, and this stays so while bodies are checked.
A declaration finds what was registered under its name and position, so it finds its own signature
if no two declarations share both.

* `Environment.From`: the classes and entities come from the program.
* `ScopeStack.RootFrom`: so do the variables of the root scope, before bodies are checked.
* `Environment.Registers`: how far the program is registered: which of its statements have claimed
  their names, registered their members and bound their functions.
* `registers_declare` and `Steps.registers`: the pass over the declarations, and the steps after it.
* `Program.Distinct`: no two declarations share name and position.
-/

namespace HybroidSema

/-- Every class and entity comes from a declaration of the program with its name and position, and
no name has both. -/
structure Environment.From (e : Environment) (p : Program) : Prop where
  classes : ∀ name info, e.classes.get? name = some info → ∃ decl, Stmt.classDecl decl ∈ p ∧
    decl.name = ⟨name, info.span⟩ ∧ info.From decl
  entities : ∀ name info, e.entities.get? name = some info → ∃ decl, Stmt.entityDecl decl ∈ p ∧
    decl.name = ⟨name, info.span⟩ ∧ info.From decl
  exclusive : ∀ name, (e.entities.get? name).isSome → e.classes.get? name = none

/-- Every variable of the root scope is a function of the program. -/
def ScopeStack.RootFrom (s : ScopeStack) (p : Program) : Prop :=
  ∀ name v, s.root.bindings.get? name = some v → v.From name p

/-- What is registered comes from the program. The statements in `claimed` have claimed their type
names, the classes in `filled` that have their name have their constructor, and the functions in
`bound` are bound. -/
structure Environment.Registers (e : Environment) (p claimed filled bound : Program) : Prop
    extends e.From p where
  types : ∀ name, e.declaredSpan? name = (claimed.type? name).map (·.span)
  constructors : ∀ decl, Stmt.classDecl decl ∈ filled → ∀ info,
    e.classes.get? decl.name.name = some info → info.span = decl.name.span →
    ∃ decl', Stmt.classDecl decl' ∈ p ∧ decl'.name = decl.name ∧
      info.constructor.isSome = decl'.constructor.isSome
  functions : ∀ decl, Stmt.function decl ∈ bound → ∃ v,
    e.scopes.root.bindings.get? decl.name.name = some v ∧ v.From decl.name.name p

/-- Declarations with the same name at the same position are the same. -/
structure Program.Distinct (p : Program) : Prop where
  functions : {decl | Stmt.function decl ∈ p}.InjOn FunctionDecl.name
  classes : {decl | Stmt.classDecl decl ∈ p}.InjOn ClassDecl.name
  entities : {decl | Stmt.entityDecl decl ∈ p}.InjOn EntityDecl.name
  classMethods : ∀ decl, Stmt.classDecl decl ∈ p → {m | m ∈ decl.methods}.InjOn FunctionDecl.name
  entityMethods : ∀ decl, Stmt.entityDecl decl ∈ p → {m | m ∈ decl.methods}.InjOn FunctionDecl.name

/-- What reading and assigning a variable record has nothing to do with where it comes from. -/
theorem Variable.From.of_settled {v v' : Variable} {name : String} {p : Program}
    (h : v.From name p) (hsettled : v'.settled = v.settled) : v'.From name p := by
  obtain ⟨decl, signature, hdecl, hname, hvalue, hreturns⟩ := h
  have hspan : v'.settled.span = v.settled.span := by rw [hsettled]
  have hvalue' : v'.settled.value = v.settled.value := by rw [hsettled]
  exact ⟨decl, signature, hdecl, hname.trans (congrArg _ hspan.symm), hvalue'.trans hvalue,
    hreturns⟩

namespace Environment

variable {e e' : Environment} {p : Program}

/-- In a new environment nothing is registered. -/
theorem IsNew.registers (h : e.IsNew) (p : Program) :
    e.Registers p [] [] [] ∧ e.scopes.RootFrom p := by
  rw [h]
  exact ⟨⟨⟨nofun, nofun, nofun⟩, fun _ => rfl, nofun, nofun⟩, nofun⟩

/-- A claimed name has no members yet. -/
theorem From.adds (h : e.From p) {stmt : Stmt} (hstmt : stmt ∈ p) {name : String} {kind : TypeKind}
    (htype : stmt.typeName? = some (name, kind)) (hfree : e.declaredSpan? name = none)
    (hadds : e.Adds stmt e') : e'.From p := by
  have hnone : e.classes.get? name = none ∧ e.entities.get? name = none := by
    simp only [declaredSpan?] at hfree
    cases hc : e.classes.get? name <;> cases he : e.entities.get? name <;> simp_all
  cases hadds with
  | classDecl decl ref =>
    cases htype
    refine ⟨fun name info hinfo => ?_, h.entities, fun name hsome => ?_⟩
    · rw [Table.get?_insert] at hinfo
      split at hinfo
      · next heq =>
        cases hinfo
        exact ⟨decl, hstmt, by rw [heq], Members.from_empty _, by simp⟩
      · exact h.classes name info hinfo
    · have hne : name ≠ decl.name.name := by
        rintro rfl
        rw [hnone.2] at hsome
        cases hsome
      rw [Table.get?_insert, if_neg hne]
      exact h.exclusive name hsome
  | entityDecl decl ref =>
    cases htype
    refine ⟨h.classes, fun name info hinfo => ?_, fun name hsome => ?_⟩
    · rw [Table.get?_insert] at hinfo
      split at hinfo
      · next heq =>
        cases hinfo
        refine ⟨decl, hstmt, by rw [heq], Members.from_empty _, fun kind signature hs => ?_⟩
        cases kind <;> cases hs
      · exact h.entities name info hinfo
    · rw [Table.get?_insert] at hsome
      split at hsome
      · next heq => rw [heq, hnone.1]
      · exact h.exclusive name hsome
  | enumDecl => exact ⟨h.classes, h.entities, h.exclusive⟩
  | aliasDecl => exact ⟨h.classes, h.entities, h.exclusive⟩

/-- A class that is filled in from a declaration with its name and position. -/
theorem From.modifyClass (h : e.From p) (name : String) {f : ClassInfo → ClassInfo}
    (hspan : ∀ info, (f info).span = info.span)
    (hf : ∀ info, e.classes.get? name = some info → ∃ decl, Stmt.classDecl decl ∈ p ∧
      decl.name = ⟨name, info.span⟩ ∧ (f info).From decl) :
    From { e with classes := e.classes.modify name f } p := by
  refine ⟨fun other info hinfo => ?_, h.entities, fun other hsome => ?_⟩
  · rw [Table.get?_modify] at hinfo
    split at hinfo
    · next heq =>
      subst heq
      obtain ⟨info', hinfo', rfl⟩ := Option.map_eq_some_iff.1 hinfo
      obtain ⟨decl, hdecl, hname, hfrom⟩ := hf info' hinfo'
      exact ⟨decl, hdecl, by rw [hspan, hname], hfrom⟩
    · exact h.classes other info hinfo
  · rw [Table.get?_modify, h.exclusive other hsome]
    split <;> rfl

/-- An entity that is filled in from a declaration with its name and position. -/
theorem From.modifyEntity (h : e.From p) (name : String) {f : EntityInfo → EntityInfo}
    (hspan : ∀ info, (f info).span = info.span)
    (hf : ∀ info, e.entities.get? name = some info → ∃ decl, Stmt.entityDecl decl ∈ p ∧
      decl.name = ⟨name, info.span⟩ ∧ (f info).From decl) :
    From { e with entities := e.entities.modify name f } p := by
  refine ⟨h.classes, fun other info hinfo => ?_, fun other hsome => ?_⟩
  · rw [Table.get?_modify] at hinfo
    split at hinfo
    · next heq =>
      subst heq
      obtain ⟨info', hinfo', rfl⟩ := Option.map_eq_some_iff.1 hinfo
      obtain ⟨decl, hdecl, hname, hfrom⟩ := hf info' hinfo'
      exact ⟨decl, hdecl, by rw [hspan, hname], hfrom⟩
    · exact h.entities other info hinfo
  · rw [Check.isSome_modify] at hsome
    exact h.exclusive other hsome

/-- A field that gets a value leaves methods and lifecycle functions alone. -/
theorem From.modifyMembers (h : e.From p) (kind : NamedKind) (container field : String)
    (value : Value) : (e.modifyMembers kind container (·.setField field value)).From p := by
  cases kind with
  | classDecl =>
    refine h.modifyClass container (fun _ => rfl) fun info hinfo => ?_
    obtain ⟨decl, hdecl, hname, hfrom⟩ := h.classes container info hinfo
    exact ⟨decl, hdecl, hname, hfrom.methods.setField field value, hfrom.constructor⟩
  | entityDecl =>
    refine h.modifyEntity container (fun _ => rfl) fun info hinfo => ?_
    obtain ⟨decl, hdecl, hname, hfrom⟩ := h.entities container info hinfo
    refine ⟨decl, hdecl, hname, hfrom.methods.setField field value, fun kind signature hs => ?_⟩
    exact hfrom.lifecycles kind signature (by cases kind <;> exact hs)

end Environment

namespace Check

variable {c : Context} {s s' : State} {o : ScopeStack} {phase : Phase} {env : Environment}
  {p : Program}

/-! ## Steps -/

theorem map_get?_modify {α β : Type} (t : Table α) (name other : String) {f : α → α} {g : α → β}
    (h : ∀ a, g (f a) = g a) : ((t.modify name f).get? other).map g = (t.get? other).map g := by
  rw [Table.get?_modify]
  split
  · simp [Function.comp_def, h]
  · rfl

/-- An edit outside the passes that claim names and register members. -/
theorem Edit.from {f : Environment → Environment} (h : Edit c phase s f)
    (hclaiming : phase ≠ .claiming) (hdeclaring : phase ≠ .declaring) (henv : env.From p) :
    (f env).From p ∧ (∀ name, (f env).declaredSpan? name = env.declaredSpan? name) ∧
      ∀ name, ((f env).classes.get? name).map (fun info => (info.span, info.constructor)) =
        (env.classes.get? name).map fun info => (info.span, info.constructor) := by
  cases h with
  | scopes f => exact ⟨⟨henv.classes, henv.entities, henv.exclusive⟩, fun _ => rfl, fun _ => rfl⟩
  | require =>
    simp only [Environment.require]
    split
    · exact ⟨⟨henv.classes, henv.entities, henv.exclusive⟩, fun _ => rfl, fun _ => rfl⟩
    · exact ⟨henv, fun _ => rfl, fun _ => rfl⟩
  | addImport =>
    simp only [Environment.addImport]
    split
    · exact ⟨⟨henv.classes, henv.entities, henv.exclusive⟩, fun _ => rfl, fun _ => rfl⟩
    · exact ⟨henv, fun _ => rfl, fun _ => rfl⟩
  | setField kind container field value =>
    refine ⟨henv.modifyMembers kind container field value, fun name => ?_, fun name => ?_⟩
    · cases kind <;> simp [Environment.modifyMembers, Environment.declaredSpan?, map_get?_modify]
    · cases kind <;> simp [Environment.modifyMembers, map_get?_modify]
  | claimClass _ _ hphase | claimEntity _ _ hphase | claimEnum _ _ hphase
  | claimAlias _ _ hphase => exact absurd hphase hclaiming
  | fillClass _ _ hphase | fillEntity _ _ hphase => exact absurd hphase hdeclaring
  | fillAlias =>
    refine ⟨⟨henv.classes, henv.entities, henv.exclusive⟩, fun name => ?_, fun _ => rfl⟩
    simp [Environment.declaredSpan?, map_get?_modify]

theorem Edit.keepsRoot {f : Environment → Environment} (h : Edit c phase s f)
    (hown : s.own? c = some env) : phase.KeepsRoot env.scopes (f env).scopes := by
  cases h with
  | scopes f hkeeps => exact hkeeps env hown
  | require =>
    simp only [Environment.require]
    split <;> exact .refl phase _
  | addImport =>
    simp only [Environment.addImport]
    split <;> exact .refl phase _
  | setField kind => cases kind <;> exact .refl phase _
  | _ => exact .refl phase _

/-- In no phase does a variable of the root scope change what it was declared as. -/
theorem Phase.KeepsRoot.keepsRoot {a b : ScopeStack} (h : phase.KeepsRoot a b) : a.KeepsRoot b := by
  cases phase with
  | binding | visiting | checking => exact h
  | looking => exact ScopeStack.keepsRoot_of_unread_eq h
  | importing | claiming | resolving | declaring => exact .of_bindings_eq h

section Registers

variable {claimed filled bound : Program}

theorem Edit.registers {f : Environment → Environment} (h : Edit c phase s f)
    (hclaiming : phase ≠ .claiming) (hdeclaring : phase ≠ .declaring) (hown : s.own? c = some env)
    (henv : env.Registers p claimed filled bound) : (f env).Registers p claimed filled bound := by
  obtain ⟨hfrom, hspans, hclasses⟩ := h.from hclaiming hdeclaring henv.toFrom
  refine ⟨hfrom, fun name => (hspans name).trans (henv.types name),
    fun decl hdecl info hinfo hspan => ?_, fun decl hdecl => ?_⟩
  · have hsame := hclasses decl.name.name
    rw [hinfo] at hsame
    obtain ⟨old, hold, heq⟩ := Option.map_eq_some_iff.1 hsame.symm
    obtain ⟨holdSpan, holdConstructor⟩ := Prod.mk.inj heq
    rw [← holdConstructor]
    exact henv.constructors decl hdecl old hold (holdSpan.trans hspan)
  · obtain ⟨v, hv, hvfrom⟩ := henv.functions decl hdecl
    obtain ⟨v', hv', hsettled⟩ := (h.keepsRoot hown).keepsRoot _ _ hv
    exact ⟨v', hv', hvfrom.of_settled hsettled⟩

/-- Steps outside the passes that claim names and register members. -/
theorem Steps.registers (hl : Live c s o) (hsteps : Steps c phase s s')
    (hclaiming : phase ≠ .claiming) (hdeclaring : phase ≠ .declaring) (hown : s.own? c = some env)
    (henv : env.Registers p claimed filled bound) :
    ∃ env', s'.own? c = some env' ∧ env'.Registers p claimed filled bound :=
  Steps.own_keeps hl hsteps
    (fun _ _ _ hf hown henv => hf.registers hclaiming hdeclaring hown henv) hown henv

/-- Steps that bind no variable of the root scope either. -/
theorem Steps.registers_rootFrom (hl : Live c s o) (hsteps : Steps c phase s s')
    (hphase : phase = .importing ∨ phase = .resolving) (hown : s.own? c = some env)
    (henv : env.Registers p claimed filled bound ∧ env.scopes.RootFrom p) :
    ∃ env', s'.own? c = some env' ∧ env'.Registers p claimed filled bound ∧
      env'.scopes.RootFrom p := by
  refine Steps.own_keeps hl hsteps (fun _ f env hf hown henv => ?_) hown henv
  have hbindings : (f env).scopes.root.bindings = env.scopes.root.bindings := by
    have hkeeps := hf.keepsRoot hown
    rcases hphase with rfl | rfl <;> exact hkeeps
  refine ⟨hf.registers ?_ ?_ hown henv.1, fun name v hv => henv.2 name v (hbindings ▸ hv)⟩
  · rcases hphase with rfl | rfl <;> nofun
  · rcases hphase with rfl | rfl <;> nofun

end Registers

end Check

/-! ## Claims -/

namespace Environment

variable {e e' : Environment} {p claimed filled bound : Program}

theorem Adds.declaredSpan? {stmt : Stmt} (h : e.Adds stmt e') {id : Ident}
    (hid : stmt.typeIdent? = some id) (hfree : e.declaredSpan? id.name = none) (name : String) :
    e'.declaredSpan? name = if name = id.name then some id.span else e.declaredSpan? name := by
  simp only [Environment.declaredSpan?] at hfree
  cases h <;> cases hid <;> simp only [Environment.declaredSpan?, Table.get?_insert] <;> split <;>
    simp_all

theorem type?_append_singleton (p : Program) (stmt : Stmt) (name : String) :
    Program.type? (p ++ [stmt]) name =
      (p.type? name).or (stmt.typeIdent?.filter (·.name == name)) := by
  rw [Program.type?, List.filterMap_append, List.find?_append, ← Program.type?]
  congr 1
  cases h : stmt.typeIdent? with
  | none => simp [h]
  | some id => simp [h, List.find?_singleton, Option.filter]

/-- A statement claims its type name, or another one has it. -/
theorem Registers.claims (h : e.Registers p claimed [] []) {stmt : Stmt} (hstmt : stmt ∈ p)
    {id : Ident} {kind : TypeKind} (hid : stmt.typeIdent? = some id)
    (htype : stmt.typeName? = some (id.name, kind)) (hclaims : e.Claims stmt id.name e') :
    e'.Registers p (claimed ++ [stmt]) [] [] := by
  unfold Claims at hclaims
  split at hclaims
  · next htaken =>
    subst hclaims
    refine ⟨h.toFrom, fun name => ?_, nofun, nofun⟩
    rw [type?_append_singleton, hid, h.types name]
    by_cases hname : id.name = name
    · subst hname
      rw [h.types] at htaken
      cases hfound : claimed.type? id.name with
      | none => simp [hfound] at htaken
      | some first => simp
    · simp [Option.filter, hname]
  · next hfree =>
    have hnone : e.declaredSpan? id.name = none := by simpa using hfree
    refine ⟨h.toFrom.adds hstmt htype hnone hclaims, fun name => ?_, nofun, nofun⟩
    rw [hclaims.declaredSpan? hid hnone, type?_append_singleton, hid, h.types name]
    by_cases hname : id.name = name
    · subst hname
      rw [h.types] at hnone
      have hfirst : claimed.type? id.name = none := by simpa using hnone
      simp [hfirst, Option.filter]
    · have hne : ¬name = id.name := fun heq => hname heq.symm
      simp [Option.filter, hname, hne]

/-- A statement that declares no type. -/
theorem Registers.skip (h : e.Registers p claimed [] []) {stmt : Stmt}
    (hid : stmt.typeIdent? = none) : e.Registers p (claimed ++ [stmt]) [] [] := by
  refine ⟨h.toFrom, fun name => ?_, nofun, nofun⟩
  rw [type?_append_singleton, hid, h.types name]
  simp [Option.filter]

/-! ## Members and functions -/

/-- A class that has its name, and the position of its declaration. -/
theorem declaredSpan?_of_class {info : ClassInfo} {name : String}
    (hinfo : e.classes.get? name = some info) : e.declaredSpan? name = some info.span := by
  simp [Environment.declaredSpan?, hinfo]

theorem declaredSpan?_of_entity {info : EntityInfo} {name : String} (h : e.From p)
    (hinfo : e.entities.get? name = some info) : e.declaredSpan? name = some info.span := by
  have hnone := h.exclusive name (by simp [hinfo])
  simp [Environment.declaredSpan?, hinfo, hnone]

/-- A class that does not have its name registers nothing. -/
theorem Registers.skipClass (h : e.Registers p claimed filled []) {decl : ClassDecl}
    (hnot : e.declaredSpan? decl.name.name ≠ some decl.name.span) :
    e.Registers p claimed (filled ++ [.classDecl decl]) [] := by
  refine ⟨h.toFrom, h.types, fun other hother info hinfo hspan => ?_, nofun⟩
  rcases List.mem_append.1 hother with hbefore | hlast
  · exact h.constructors other hbefore info hinfo hspan
  · obtain rfl : other = decl := by simpa using hlast
    exact absurd ((declaredSpan?_of_class hinfo).trans (congrArg some hspan)) hnot

/-- A class that has its name registers its members and its constructor. -/
theorem Registers.fillClass (h : e.Registers p claimed filled []) {decl : ClassDecl}
    (hdecl : Stmt.classDecl decl ∈ p)
    (howns : e.declaredSpan? decl.name.name = some decl.name.span) {members : Members}
    {constructor : Option Signature} (hmembers : members.From decl.methods)
    (hreturns : ∀ signature ∈ constructor, signature.returns = [])
    (hsome : constructor.isSome = decl.constructor.isSome) :
    Registers { e with
      classes := e.classes.modify decl.name.name fun info =>
        { info with members := members, constructor := constructor } }
      p claimed (filled ++ [.classDecl decl]) [] := by
  have hown {info : ClassInfo} (hinfo : e.classes.get? decl.name.name = some info) :
      decl.name = ⟨decl.name.name, info.span⟩ := by
    have hspan := (declaredSpan?_of_class hinfo).symm.trans howns
    rw [Option.some.inj hspan]
  refine ⟨h.toFrom.modifyClass _ (fun _ => rfl) fun info hinfo =>
    ⟨decl, hdecl, hown hinfo, hmembers, hreturns⟩, fun name => ?_,
    fun other hother info hinfo hspan => ?_, nofun⟩
  · rw [← h.types name]
    simp [Environment.declaredSpan?, Check.map_get?_modify]
  · rw [Table.get?_modify] at hinfo
    split at hinfo
    · next hname =>
      obtain ⟨old, hold, rfl⟩ := Option.map_eq_some_iff.1 hinfo
      refine ⟨decl, hdecl, ?_, hsome⟩
      rw [hname] at hold
      rw [hown hold]
      exact congrArg₂ Ident.mk hname.symm hspan
    · next hname =>
      rcases List.mem_append.1 hother with hbefore | hlast
      · exact h.constructors other hbefore info hinfo hspan
      · obtain rfl : other = decl := by simpa using hlast
        exact absurd rfl hname

/-- A statement without a class registers no constructor. -/
theorem Registers.skipStmt (h : e.Registers p claimed filled []) {stmt : Stmt}
    (hstmt : ∀ decl, stmt ≠ .classDecl decl) : e.Registers p claimed (filled ++ [stmt]) [] := by
  refine ⟨h.toFrom, h.types, fun other hother => h.constructors other ?_, nofun⟩
  rcases List.mem_append.1 hother with hbefore | hlast
  · exact hbefore
  · exact absurd (List.mem_singleton.1 hlast).symm (hstmt other)

/-- An entity that has its name registers its members and its lifecycle functions. -/
theorem Registers.fillEntity (h : e.Registers p claimed filled []) {decl : EntityDecl}
    (hdecl : Stmt.entityDecl decl ∈ p)
    (howns : e.declaredSpan? decl.name.name = some decl.name.span) {f : EntityInfo → EntityInfo}
    (hspan : ∀ info, (f info).span = info.span) (hf : ∀ info, (f info).From decl) :
    Registers { e with entities := e.entities.modify decl.name.name f } p claimed filled [] := by
  refine ⟨h.toFrom.modifyEntity _ hspan fun info hinfo => ⟨decl, hdecl, ?_, hf info⟩,
    fun name => ?_, h.constructors, nofun⟩
  · have heq := (declaredSpan?_of_entity h.toFrom hinfo).symm.trans howns
    rw [Option.some.inj heq]
  · rw [← h.types name]
    simp [Environment.declaredSpan?, Check.map_get?_modify, hspan]

/-- A function whose name is bound already. -/
theorem Registers.skipFunction (h : e.Registers p claimed filled bound)
    (hroot : e.scopes.RootFrom p) {decl : FunctionDecl} {first : Variable}
    (hfirst : e.scopes.root.bindings.get? decl.name.name = some first) :
    e.Registers p claimed filled (bound ++ [.function decl]) := by
  refine ⟨h.toFrom, h.types, h.constructors, fun other hother => ?_⟩
  rcases List.mem_append.1 hother with hbefore | hlast
  · exact h.functions other hbefore
  · obtain rfl : other = decl := by simpa using hlast
    exact ⟨first, hfirst, hroot _ _ hfirst⟩

/-- A further function is bound in the root scope. -/
theorem Registers.bindFunction (h : e.Registers p claimed filled bound)
    (hroot : e.scopes.RootFrom p) {decl : FunctionDecl} {binding : Variable}
    (hfrom : binding.From decl.name.name p) {scopes : ScopeStack}
    (hscopes : scopes.root.bindings = e.scopes.root.bindings.insert decl.name.name binding) :
    Registers { e with scopes := scopes } p claimed filled (bound ++ [.function decl]) ∧
      scopes.RootFrom p := by
  refine ⟨⟨⟨h.classes, h.entities, h.exclusive⟩, h.types, h.constructors, fun other hother => ?_⟩,
    fun name v hv => ?_⟩
  · rw [hscopes, Table.get?_insert]
    split
    · next heq => exact ⟨binding, rfl, heq ▸ hfrom⟩
    · next hne =>
      rcases List.mem_append.1 hother with hbefore | hlast
      · exact h.functions other hbefore
      · obtain rfl : other = decl := by simpa using hlast
        exact absurd rfl hne
  · rw [hscopes, Table.get?_insert] at hv
    split at hv
    · next heq =>
      cases hv
      exact heq ▸ hfrom
    · exact hroot name v hv

end Environment

/-! ## The passes -/

namespace Declare

open Check Environment

variable {c : Context} {s s' : State} {o : ScopeStack} {env : Environment}
  {p claimed filled bound : Program}

/-- The own environment is being walked, and the program is registered this far. -/
def Registering (c : Context) (o : ScopeStack) (p claimed filled bound : Program) (s : State) :
    Prop :=
  Live c s o ∧ ∃ env, s.own? c = some env ∧ env.Registers p claimed filled bound ∧
    env.scopes.RootFrom p

/-- Resolving types changes nothing that is registered. -/
theorem Registering.quiet {α : Type} {m : Check α} {a : α} (hm : Quiet .resolving m)
    (h : Registering c o p claimed filled bound s) (hrun : m c s = .ok (a, s')) :
    Registering c o p claimed filled bound s' := by
  obtain ⟨hl, env, hown, henv⟩ := h
  obtain ⟨hsteps, hl'⟩ := (hm c s o hl).apply hrun
  exact ⟨hl', Steps.registers_rootFrom hl hsteps (.inr rfl) hown henv⟩

theorem registering_claimType {stmt : Stmt} {n : Nat} (hstmt : stmt ∈ p)
    (h : Registering c o p claimed [] [] s) (hrun : claimType stmt c s = .ok (n, s')) :
    Registering c o p (claimed ++ [stmt]) [] [] s' := by
  obtain ⟨hl, env, hown, henv, hroot⟩ := h
  obtain ⟨-, hl'⟩ := (quiet_claimType stmt c s o hl).apply hrun
  refine ⟨hl', ?_⟩
  cases hid : stmt.typeIdent? with
  | none =>
    have hnone : stmt.typeName? = none := by cases stmt <;> first | rfl | cases hid
    rw [claimType_eq_of_none hnone] at hrun
    cases hrun
    exact ⟨env, hown, henv.skip hid, hroot⟩
  | some id =>
    have hname : ∃ kind, stmt.typeName? = some (id.name, kind) := by
      cases stmt <;> cases hid <;> exact ⟨_, rfl⟩
    obtain ⟨kind, htype⟩ := hname
    obtain ⟨env', hown', hclaims⟩ := claims_claimType htype hown hrun
    have hscopes : env'.scopes = env.scopes := by
      unfold Environment.Claims at hclaims
      split at hclaims
      · rw [hclaims]
      · cases hclaims <;> rfl
    exact ⟨env', hown', henv.claims hstmt hid htype hclaims, hscopes ▸ hroot⟩

theorem ownsName_eq_ok {name : Ident} {owns : Bool} (hown : s.own? c = some env)
    (h : ownsName name c s = .ok (owns, s')) :
    s' = s ∧ (owns = true ↔ env.declaredSpan? name.name = some name.span) := by
  obtain ⟨found, t, henv, hpure⟩ := bind_eq_ok h
  obtain ⟨rfl, hfound⟩ := environment_eq_ok henv
  obtain rfl := Option.some.inj (hown.symm.trans hfound)
  cases hpure
  exact ⟨rfl, by simp⟩

/-- Fields alone come with no methods. -/
theorem from_of_registerFields {fields : List VariableDecl} {members : Members}
    (decls : List FunctionDecl) (hrun : registerFields fields {} c s = .ok (members, s')) :
    members.From decls := by
  intro name method hmethod
  rw [Members.method?, gives_registerFields _ _ _ _ _ _ hrun] at hmethod
  cases hmethod

theorem registering_registerClass {decl : ClassDecl} {n : Nat} (hdecl : Stmt.classDecl decl ∈ p)
    (h : Registering c o p claimed filled [] s) (hrun : registerClass decl c s = .ok (n, s')) :
    Registering c o p claimed (filled ++ [.classDecl decl]) [] s' := by
  have hlive := (quiet_registerClass decl c s o h.1).apply hrun
  refine ⟨hlive.2, ?_⟩
  obtain ⟨owns, t, howns, hrest⟩ := bind_eq_ok hrun
  obtain ⟨env, hown, henv, hroot⟩ := h.2
  obtain ⟨rfl, hiff⟩ := ownsName_eq_ok hown howns
  cases owns with
  | false =>
    cases hrest
    exact ⟨env, hown, henv.skipClass fun heq => Bool.false_ne_true (hiff.2 heq), hroot⟩
  | true =>
    simp only [if_true] at hrest
    obtain ⟨fields, t₁, hfields, hrest⟩ := bind_eq_ok hrest
    obtain ⟨⟨members, methods⟩, t₂, hmethods, hrest⟩ := bind_eq_ok hrest
    obtain ⟨constructor, t₃, hconstructor, hrest⟩ := bind_eq_ok hrest
    obtain ⟨⟨⟩, t₄, hmodify, hpure⟩ := bind_eq_ok hrest
    cases hpure
    obtain rfl := modifyEnvironment_eq_ok hmodify
    have hmembers := gives_registerMethods (fun _ hd => hd)
      (from_of_registerFields decl.methods hfields) _ _ _ _ hmethods
    obtain ⟨hreturns, hsome⟩ := gives_registerConstructor decl _ _ _ _ hconstructor
    have hresolved := ((h.quiet (quiet_registerFields _ _) hfields).quiet
      (quiet_registerMethods _ _) hmethods).quiet (quiet_registerConstructor _) hconstructor
    obtain ⟨-, env₃, hown₃, henv₃, hroot₃⟩ := hresolved
    have hspan₃ : env₃.declaredSpan? decl.name.name = some decl.name.span := by
      rw [henv₃.types, ← henv.types]
      exact hiff.1 rfl
    exact ⟨_, (own?_modifyOwn c _ t₃).trans (congrArg (Option.map _) hown₃),
      henv₃.fillClass hdecl hspan₃ hmembers hreturns hsome, hroot₃⟩

theorem registering_registerEntity {decl : EntityDecl} {n : Nat}
    (hdecl : Stmt.entityDecl decl ∈ p) (h : Registering c o p claimed filled [] s)
    (hrun : registerEntity decl c s = .ok (n, s')) : Registering c o p claimed filled [] s' := by
  have hlive := (quiet_registerEntity decl c s o h.1).apply hrun
  refine ⟨hlive.2, ?_⟩
  obtain ⟨owns, t, howns, hrest⟩ := bind_eq_ok hrun
  obtain ⟨env, hown, henv, hroot⟩ := h.2
  obtain ⟨rfl, hiff⟩ := ownsName_eq_ok hown howns
  cases owns with
  | false =>
    cases hrest
    exact ⟨env, hown, henv, hroot⟩
  | true =>
    simp only [if_true] at hrest
    obtain ⟨fields, t₁, hfields, hrest⟩ := bind_eq_ok hrest
    obtain ⟨⟨members, methods⟩, t₂, hmethods, hrest⟩ := bind_eq_ok hrest
    obtain ⟨registered, t₃, hregistered, hrest⟩ := bind_eq_ok hrest
    obtain ⟨⟨⟩, t₄, hspawn, hrest⟩ := bind_eq_ok hrest
    obtain ⟨⟨⟩, t₅, hdestroy, hrest⟩ := bind_eq_ok hrest
    obtain ⟨⟨⟩, t₆, hmodify, hpure⟩ := bind_eq_ok hrest
    cases hpure
    obtain rfl := modifyEnvironment_eq_ok hmodify
    have hmembers := gives_registerMethods (fun _ hd => hd)
      (from_of_registerFields decl.methods hfields) _ _ _ _ hmethods
    have hstart : FirstOf [] [] := fun _ => .none
    have hfirst := gives_registerLifecycles decl.name hstart _ _ _ _ hregistered
    have hresolved := ((((h.quiet (quiet_registerFields _ _) hfields).quiet
      (quiet_registerMethods _ _) hmethods).quiet (quiet_registerLifecycles _ _ _)
        hregistered).quiet (quiet_requireLifecycle _ _ _) hspawn).quiet
          (quiet_requireLifecycle _ _ _) hdestroy
    obtain ⟨-, env₅, hown₅, henv₅, hroot₅⟩ := hresolved
    have hspan₅ : env₅.declaredSpan? decl.name.name = some decl.name.span := by
      rw [henv₅.types, ← henv.types]
      exact hiff.1 rfl
    refine ⟨_, (own?_modifyOwn c _ t₅).trans (congrArg (Option.map _) hown₅), ?_, hroot₅⟩
    exact henv₅.fillEntity hdecl hspan₅ (fun _ => rfl) fun _ => from_registered hmembers hfirst

theorem registering_registerMembers {stmt : Stmt} {n : Nat} (hstmt : stmt ∈ p)
    (h : Registering c o p claimed filled [] s) (hrun : registerMembers stmt c s = .ok (n, s')) :
    Registering c o p claimed (filled ++ [stmt]) [] s' := by
  have hskip {s : State} (h : Registering c o p claimed filled [] s)
      (hne : ∀ decl, stmt ≠ .classDecl decl) :
      Registering c o p claimed (filled ++ [stmt]) [] s := by
    obtain ⟨hl, env, hown, henv, hroot⟩ := h
    exact ⟨hl, env, hown, henv.skipStmt hne, hroot⟩
  cases stmt with
  | classDecl decl => exact registering_registerClass hstmt h hrun
  | entityDecl decl => exact hskip (registering_registerEntity hstmt h hrun) nofun
  | _ =>
    cases hrun
    exact hskip h nofun

theorem registering_registerFunction {stmt : Stmt} {n : Nat} (hstmt : stmt ∈ p)
    (h : Registering c o p claimed filled bound s)
    (hrun : registerFunction stmt c s = .ok (n, s')) :
    Registering c o p claimed filled (bound ++ [stmt]) s' := by
  cases stmt with
  | function decl =>
    have hquiet : Quiet .binding (registerFunction (.function decl)) := quiet_registerFunction _
    have hlive := (hquiet c s o h.1).apply hrun
    refine ⟨hlive.2, ?_⟩
    obtain ⟨signature, t, hsignature, hrest⟩ := bind_eq_ok hrun
    obtain ⟨hl, env, hown, henv, hroot⟩ := h.quiet (quiet_resolveSignature _ _ _) hsignature
    have hreturns := gives_resolveSignature _ _ _ _ _ _ _ hsignature
    obtain ⟨stack, u, hscopes, hrest⟩ := bind_eq_ok hrest
    obtain ⟨rfl, -, env', hown', rfl⟩ := (runs_scopes hl).apply hscopes
    obtain rfl := Option.some.inj (hown.symm.trans hown')
    simp only [ScopeStack.declareRoot, Scope.declare] at hrest
    cases hfirst : env.scopes.root.bindings.get? decl.name.name with
    | none =>
      simp only [hfirst, Except.map] at hrest
      obtain ⟨⟨⟩, v, hmodify, hpure⟩ := bind_eq_ok hrest
      cases hpure
      obtain rfl := modifyEnvironment_eq_ok hmodify
      refine ⟨_, (own?_modifyOwn c _ _).trans (congrArg (Option.map _) hown),
        henv.bindFunction hroot ?_ rfl⟩
      exact ⟨decl, signature, hstmt, rfl, rfl, hreturns⟩
    | some first =>
      simp only [hfirst, Except.map] at hrest
      obtain ⟨⟨⟩, v, hreport, hpure⟩ := bind_eq_ok hrest
      cases hpure
      exact (Registering.quiet (quiet_reportScopeError _ _ _)
        ⟨hl, env, hown, henv.skipFunction hroot hfirst, hroot⟩ hreport).2
  | _ =>
    cases hrun
    obtain ⟨hl, env, hown, henv, hroot⟩ := h
    refine ⟨hl, env, hown,
      ⟨henv.toFrom, henv.types, henv.constructors, fun decl hdecl => ?_⟩, hroot⟩
    rcases List.mem_append.1 hdecl with hbefore | hlast
    · exact henv.functions decl hbefore
    · simp at hlast

/-- Registering a program in a new environment, from its imports to its functions. -/
theorem registers_declare (hl : Live c s o) (hown : s.own? c = some env)
    (hnew : env.Registers p [] [] [] ∧ env.scopes.RootFrom p) {counts : Counts}
    (hrun : Declare.program p c s = .ok (counts, s')) :
    ∃ env', s'.own? c = some env' ∧ env'.Registers p p p p := by
  obtain ⟨s₁, s₂, types, himport, hclaim, hfill⟩ := declare_eq_ok hrun
  have himports : Quiet .importing (importAll p) := quiet_importAll p
  obtain ⟨hsteps, hl₁⟩ := (himports c s o hl).apply himport
  have hstart : Registering c o p [] [] [] s₁ :=
    ⟨hl₁, Steps.registers_rootFrom hl hsteps (.inl rfl) hown hnew⟩
  have hclaimed := countEach_induct (I := fun before => Registering c o p before [] [])
    (fun _ _ _ _ _ hstmt h hrun => registering_claimType hstmt h hrun) [] hstart hclaim
  obtain ⟨⟨⟩, s₃, haliases, hfill⟩ := bind_eq_ok hfill
  obtain ⟨members, s₄, hmembers, hfill⟩ := bind_eq_ok hfill
  obtain ⟨functions, s₅, hfunctions, hfill⟩ := bind_eq_ok hfill
  obtain ⟨⟨⟩, s₆, hwalk, hpure⟩ := bind_eq_ok hfill
  cases hpure
  have hresolved := hclaimed.quiet (quiet_resolveAliases p) haliases
  have hfilled := countEach_induct (I := fun before => Registering c o p p before [])
    (fun _ _ _ _ _ hstmt h hrun => registering_registerMembers hstmt h hrun) [] hresolved hmembers
  have hbound := countEach_induct (I := fun before => Registering c o p p p before)
    (fun _ _ _ _ _ hstmt h hrun => registering_registerFunction hstmt h hrun) [] hfilled hfunctions
  obtain ⟨-, env', hown', henv', -⟩ := hbound.quiet (quiet_walkImports p) hwalk
  exact ⟨env', hown', henv'⟩

end Declare

end HybroidSema
