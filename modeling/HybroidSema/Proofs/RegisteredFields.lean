import HybroidSema.Proofs.LifecycleCounts
import HybroidSema.Proofs.Signatures

/-!
# Which fields are registered

A class or entity registers the first field of each name, with whether its declaration has values, and
no method under the name of a field. While bodies are walked a field may only take another type.

* `declaredFields`: the fields of declarations.
* `Members.Registers`: the members of a class or entity that declares the given fields.
* `registers_registerFields` and `registers_registerMethods`: by induction on the declarations.
* `HoldsFields`: what is registered for the classes and entities of a program.
* `Registration.holdsFields` and `Steps.holdsFields`: it is there after the registration, and stays.
-/

namespace HybroidSema

/-- The fields of declarations in source order, each with whether it has a value. -/
def declaredFields (decls : List VariableDecl) : List (Ident × Bool) :=
  decls.flatMap fun decl => decl.names.map (·, !decl.values.isEmpty)

/-- A registered field as it is declared. -/
def Variable.declared (v : Variable) : Ident × Bool := (⟨v.name, v.span⟩, v.isInit)

/-- The members of a class or entity that declares the given fields: the first field of each name, and
methods with other names. -/
structure Members.Registers (m : Members) (fields : List (Ident × Bool)) : Prop where
  nodup : (m.fields.map (·.name) ++ m.methods.entries.map Prod.fst).Nodup
  first : ∀ name, (m.fields.find? (·.name == name)).map Variable.declared =
    fields.find? (·.1.name == name)
  constant : ∀ v ∈ m.fields, v.constant = none

namespace Members

variable {m m' : Members} {fields : List (Ident × Bool)} {name : String}

theorem field?_eq_none_iff : m.field? name = none ↔ ∀ v ∈ m.fields, v.name ≠ name := by
  unfold field?
  cases hindex : m.fields.findIdx? (·.name == name) with
  | none => simpa using List.findIdx?_eq_none_iff.1 hindex
  | some index =>
    obtain ⟨hlt, hname, -⟩ := List.findIdx?_eq_some_iff_getElem.1 hindex
    have hmem : m.fields[index] ∈ m.fields := List.getElem_mem hlt
    simp only [Option.bind_eq_bind, Option.bind_some, List.getElem?_eq_getElem hlt]
    exact ⟨nofun, fun h => absurd (by simpa using hname) (h _ hmem)⟩

theorem memberSpan?_eq_none_iff : m.memberSpan? name = none ↔
    (∀ v ∈ m.fields, v.name ≠ name) ∧ name ∉ m.methods.entries.map Prod.fst := by
  rw [memberSpan?, ← field?_eq_none_iff, ← Table.get?_eq_none_iff, ← method?]
  cases m.field? name <;> simp

theorem registers_empty : ({} : Members).Registers [] :=
  ⟨List.nodup_nil, fun _ => rfl, nofun⟩

/-- The first field of a name is registered. -/
theorem Registers.addField (h : m.Registers fields) (hmethods : m.methods = .empty) {field : Variable}
    (hconstant : field.constant = none) (hadd : m.addField field = .ok m') :
    m'.Registers (fields ++ [field.declared]) ∧ m'.methods = .empty := by
  unfold Members.addField at hadd
  split at hadd
  · cases hadd
  · next hspan =>
    cases hadd
    obtain ⟨hfree, -⟩ := memberSpan?_eq_none_iff.1 hspan
    have hentries : m.methods.entries = [] := by rw [hmethods]; rfl
    have hnodup := h.nodup
    simp only [hentries, List.map_nil, List.append_nil] at hnodup
    have hadded := hnodup.concat (a := field.name) (by simpa using hfree)
    refine ⟨⟨by simpa [hentries] using hadded, fun name => ?_, ?_⟩, hmethods⟩
    · simp only [List.find?_append, List.find?_singleton, ← h.first, Option.map_or,
        Variable.declared]
      split <;> rfl
    · simp only [List.mem_append, List.mem_singleton]
      rintro v (hv | rfl)
      exacts [h.constant v hv, hconstant]

/-- A further field of a name is not registered. -/
theorem Registers.skipField (h : m.Registers fields) (hmethods : m.methods = .empty) {field : Variable}
    {taken : Span} (hadd : m.addField field = .error taken) :
    m.Registers (fields ++ [field.declared]) := by
  refine ⟨h.nodup, fun name => ?_, h.constant⟩
  have hsome : (m.fields.find? (·.name == field.name)).isSome := by
    by_contra hnone
    have hfree : ∀ v ∈ m.fields, v.name ≠ field.name := by simpa using hnone
    rw [Members.addField, memberSpan?_eq_none_iff.2 ⟨hfree, by simp [hmethods, Table.empty]⟩] at hadd
    cases hadd
  rw [← Option.isSome_map (f := Variable.declared), h.first] at hsome
  obtain ⟨declared, hdeclared⟩ := Option.isSome_iff_exists.1 hsome
  rw [h.first, List.find?_append, List.find?_singleton]
  by_cases hname : field.name = name
  · rw [← hname, hdeclared, Option.some_or]
  · simp [Variable.declared, hname]

/-- A method is registered under a name of its own. -/
theorem Registers.addMethod (h : m.Registers fields) {signature : Signature} {span : Span}
    (hadd : m.addMethod name signature span = .ok m') : m'.Registers fields := by
  unfold Members.addMethod at hadd
  split at hadd
  · cases hadd
  · next hspan =>
    cases hadd
    obtain ⟨hfree, hmethods⟩ := memberSpan?_eq_none_iff.1 hspan
    have hadded := h.nodup.concat (a := name) (by
      rw [List.mem_append, not_or]
      exact ⟨by simpa using hfree, hmethods⟩)
    refine ⟨?_, h.first, h.constant⟩
    simpa [Table.entries_insert hmethods, List.append_assoc] using hadded

/-- A field takes another type. -/
theorem Registers.setField (h : m.Registers fields) (name : String) (value : Value) :
    (m.setField name value).Registers fields := by
  have hshape (l : List Variable) : (setFieldIn name value l).map (fun v => (v.declared, v.constant)) =
      l.map fun v => (v.declared, v.constant) := by
    induction l with
    | nil => rfl
    | cons v rest ih =>
      unfold setFieldIn
      split
      · rfl
      · rw [List.map_cons, List.map_cons, ih]
  have hmap {α : Type} (f : (Ident × Bool) × Option Literal → α) :
      (m.setField name value).fields.map (fun v => f (v.declared, v.constant)) =
        m.fields.map fun v => f (v.declared, v.constant) := by
    have hmapped := congrArg (List.map f) (hshape m.fields)
    rwa [List.map_map, List.map_map] at hmapped
  have hdeclared : (m.setField name value).fields.map Variable.declared =
      m.fields.map Variable.declared := hmap Prod.fst
  have hnames : (m.setField name value).fields.map (·.name) = m.fields.map (·.name) :=
    hmap (·.1.1.name)
  have hconstants : (m.setField name value).fields.map (·.constant) = m.fields.map (·.constant) :=
    hmap Prod.snd
  refine ⟨by rw [hnames]; exact h.nodup, fun other => ?_, ?_⟩
  · have hfind (l : List Variable) : (l.find? (·.name == other)).map Variable.declared =
        (l.map Variable.declared).find? (·.1.name == other) := by
      rw [List.find?_map]
      rfl
    rw [hfind, hdeclared, ← hfind, h.first]
  · have hall : ∀ x ∈ m.fields.map (·.constant), x = none := by simpa using h.constant
    rw [← hconstants] at hall
    simpa using hall

/-- The fields that are registered without a value. -/
theorem Registers.find?_eq_some_iff (h : m.Registers fields) {id : Ident} :
    fields.find? (·.1.name == id.name) = some (id, false) ↔
      ∃ v ∈ m.fields, v.isInit = false ∧ Ident.mk v.name v.span = id := by
  rw [← h.first, Option.map_eq_some_iff]
  constructor
  · rintro ⟨v, hv, hdeclared⟩
    obtain ⟨hid, hinit⟩ := Prod.mk.inj hdeclared
    exact ⟨v, List.mem_of_find?_eq_some hv, hinit, hid⟩
  · rintro ⟨v, hv, hinit, rfl⟩
    have hsome : (m.fields.find? (·.name == v.name)).isSome :=
      List.find?_isSome.2 ⟨v, hv, beq_self_eq_true _⟩
    obtain ⟨w, hw⟩ := Option.isSome_iff_exists.1 hsome
    have hname : w.name = v.name := by simpa using List.find?_some hw
    obtain rfl := List.inj_on_of_nodup_map h.nodup.of_append_left (List.mem_of_find?_eq_some hw) hv hname
    exact ⟨w, hw, by rw [Variable.declared, hinit]⟩

end Members

namespace Declare

open Check

variable {fields : List (Ident × Bool)}

/-! ## Registering members -/

theorem registers_registerNames (decl : VariableDecl) (declared : Option Ty) (index : Nat)
    (names : List Ident) {m : Members} (h : m.Registers fields) (hmethods : m.methods = .empty) :
    Gives (registerNames decl declared index names m) fun m' =>
      m'.Registers (fields ++ names.map (·, !decl.values.isEmpty)) ∧ m'.methods = .empty := by
  induction names generalizing index m fields with
  | nil => exact .pure ⟨by simpa using h, hmethods⟩
  | cons name rest ih =>
    rw [List.map_cons, List.append_cons]
    unfold registerNames
    dsimp only
    split
    · next m' hadd =>
      obtain ⟨hadded, hmethods'⟩ := h.addField hmethods rfl hadd
      exact ih (index + 1) hadded hmethods'
    · next taken hadd =>
      have hskipped := h.skipField hmethods hadd
      exact .bind fun _ => ih (index + 1) hskipped hmethods

theorem registers_registerFields (decls : List VariableDecl) {m : Members} (h : m.Registers fields)
    (hmethods : m.methods = .empty) :
    Gives (registerFields decls m) (·.Registers (fields ++ declaredFields decls)) := by
  induction decls generalizing m fields with
  | nil => exact .pure (by simpa [declaredFields] using h)
  | cons decl rest ih =>
    refine .bind fun declared => .bind_of (registers_registerNames decl declared 0 _ h hmethods)
      fun m' hm => ?_
    rw [declaredFields, List.flatMap_cons, ← List.append_assoc]
    exact ih hm.1 hm.2

theorem registers_registerMethods (decls : List FunctionDecl) {m : Members} (h : m.Registers fields) :
    Gives (registerMethods decls m) (·.1.Registers fields) := by
  induction decls generalizing m with
  | nil => exact .pure h
  | cons decl rest ih =>
    unfold registerMethods
    refine .bind fun signature => ?_
    split
    · next m' hadd => exact .bind_of (ih (h.addMethod hadd)) fun _ hm => .pure hm
    · exact .bind fun _ => ih h

theorem registers_classMembers (decl : ClassDecl) : Gives (classMembers decl) fun r =>
    r.1.Registers (declaredFields decl.fields) ∧ r.2.2.isSome = decl.constructor.isSome :=
  .bind_of (registers_registerFields decl.fields Members.registers_empty rfl) fun _ hfields =>
    .bind_of (registers_registerMethods decl.methods hfields) fun _ hmethods =>
      .bind_of (gives_registerConstructor decl) fun _ hconstructor => .pure ⟨hmethods, hconstructor.2⟩

theorem registers_entityMembers (decl : EntityDecl) :
    Gives (entityMembers decl) (·.1.Registers (declaredFields decl.fields)) :=
  .bind_of (registers_registerFields decl.fields Members.registers_empty rfl) fun _ hfields =>
    .bind_of (registers_registerMethods decl.methods hfields) fun _ hmethods =>
      .bind fun _ => .bind fun _ => .bind fun _ => .pure hmethods

end Declare

/-! ## Programs -/

open Check Declare

/-- What is registered for a class declaration. -/
structure ClassInfo.Registers (info : ClassInfo) (decl : ClassDecl) : Prop where
  span : info.span = decl.name.span
  constructor : info.constructor.isSome = decl.constructor.isSome
  members : info.members.Registers (declaredFields decl.fields)

/-- What is registered for an entity declaration. -/
structure EntityInfo.Registers (info : EntityInfo) (decl : EntityDecl) : Prop where
  span : info.span = decl.name.span
  lifecycles : ∀ kind, (LifecycleDecl.first? decl.functions kind).isSome = true →
    (info.lifecycle? kind).isSome = true
  members : info.members.Registers (declaredFields decl.fields)

/-- The classes and entities that have their names are registered with their fields. -/
structure HoldsFields (id : EnvId) (p : Program) (e : Environment) : Prop where
  firsts : HoldsFirsts id p e
  classes : ∀ decl, .classDecl decl ∈ p → p.owns decl.name = true →
    ∃ info, e.classes.get? decl.name.name = some info ∧ info.Registers decl
  entities : ∀ decl, .entityDecl decl ∈ p → p.owns decl.name = true →
    ∃ info, e.entities.get? decl.name.name = some info ∧ info.Registers decl

section Program

variable {id : EnvId} {p : Program} {e : Environment} {name : Ident}

/-- What is found under a name has the position of the declaration that has the name. -/
theorem Declare.HoldsFirsts.owns_class_iff (h : HoldsFirsts id p e) {info : ClassInfo}
    (hinfo : e.classes.get? name.name = some info) : p.owns name = true ↔ info.span = name.span := by
  have hentry := h.classes name.name
  rw [hinfo, Option.map_some, eq_comm, Option.bind_eq_some_iff] at hentry
  obtain ⟨stmt, hfirst, hbare⟩ := hentry
  rw [Program.owns_eq, Program.type?_eq_first?, hfirst]
  cases stmt with
  | classDecl decl =>
    have hspan : decl.name.span = info.span := congrArg ClassInfo.span (Option.some.inj hbare)
    simp [Stmt.typeIdent?, hspan]
  | _ => cases hbare

theorem Declare.HoldsFirsts.owns_entity_iff (h : HoldsFirsts id p e) {info : EntityInfo}
    (hinfo : e.entities.get? name.name = some info) : p.owns name = true ↔ info.span = name.span := by
  have hentry := h.entities name.name
  rw [hinfo, Option.map_some, eq_comm, Option.bind_eq_some_iff] at hentry
  obtain ⟨stmt, hfirst, hbare⟩ := hentry
  rw [Program.owns_eq, Program.type?_eq_first?, hfirst]
  cases stmt with
  | entityDecl decl =>
    have hspan : decl.name.span = info.span := congrArg EntityInfo.span (Option.some.inj hbare)
    simp [Stmt.typeIdent?, hspan]
  | _ => cases hbare

theorem ClassInfo.Registers.setField {info : ClassInfo} {decl : ClassDecl} (h : info.Registers decl)
    (field : String) (value : Value) :
    ({ info with members := info.members.setField field value } : ClassInfo).Registers decl :=
  ⟨h.span, h.constructor, h.members.setField field value⟩

theorem EntityInfo.Registers.setField {info : EntityInfo} {decl : EntityDecl} (h : info.Registers decl)
    (field : String) (value : Value) :
    ({ info with members := info.members.setField field value } : EntityInfo).Registers decl :=
  ⟨h.span, fun kind => by cases kind <;> exact h.lifecycles _, h.members.setField field value⟩

theorem HoldsFields.of_tables_eq {e' : Environment} (h : HoldsFields id p e)
    (htables : e'.tables = e.tables) : HoldsFields id p e' := by
  have hfirsts := h.firsts.of_tables_eq htables
  simp only [Environment.tables, Prod.mk.injEq] at htables
  obtain ⟨hclasses, hentities, -⟩ := htables
  exact ⟨hfirsts, by rw [hclasses]; exact h.classes, by rw [hentities]; exact h.entities⟩

/-- Steps that neither claim names nor register members. -/
theorem HoldsFields.edit (h : HoldsFields id p e) {phase : Phase} {c : Context} {s : State}
    {f : Environment → Environment} (hf : Edit c phase s f) (hclaiming : phase ≠ .claiming)
    (hdeclaring : phase ≠ .declaring) : HoldsFields id p (f e) := by
  have hfirsts := h.firsts.edit hf hclaiming hdeclaring
  cases hf with
  | require =>
    simp only [Environment.require]
    split <;> exact h.of_tables_eq rfl
  | addImport =>
    simp only [Environment.addImport]
    split <;> exact h.of_tables_eq rfl
  | setField kind container field value =>
    cases kind with
    | classDecl =>
      refine ⟨hfirsts, fun decl hdecl howns => ?_, h.entities⟩
      obtain ⟨info, hinfo, hregisters⟩ := h.classes decl hdecl howns
      simp only [Environment.modifyMembers, Table.get?_modify, hinfo]
      split
      · exact ⟨_, rfl, hregisters.setField field value⟩
      · exact ⟨info, rfl, hregisters⟩
    | entityDecl =>
      refine ⟨hfirsts, h.classes, fun decl hdecl howns => ?_⟩
      obtain ⟨info, hinfo, hregisters⟩ := h.entities decl hdecl howns
      simp only [Environment.modifyMembers, Table.get?_modify, hinfo]
      split
      · exact ⟨_, rfl, hregisters.setField field value⟩
      · exact ⟨info, rfl, hregisters⟩
  | claimClass _ _ hphase | claimEntity _ _ hphase | claimEnum _ _ hphase
  | claimAlias _ _ hphase => exact absurd hphase hclaiming
  | fillClass _ _ hphase | fillEntity _ _ hphase => exact absurd hphase hdeclaring
  | fillAlias => exact ⟨hfirsts, h.classes, h.entities⟩
  | scopes => exact h.of_tables_eq rfl

end Program

namespace Check

/-- While bodies are walked, what is registered for fields stays. -/
theorem Steps.holdsFields {c : Context} {s t : State} {o : ScopeStack} {id : EnvId} {p : Program}
    {e : Environment} (hl : Live c s o) (hsteps : Steps c .checking s t) (hown : s.own? c = some e)
    (h : HoldsFields id p e) : ∃ e', t.own? c = some e' ∧ HoldsFields id p e' :=
  Steps.own_keeps (I := HoldsFields id p) hl hsteps (fun _ _ _ hf _ h => h.edit hf nofun nofun) hown h

end Check

/-- What the registration of a program leaves. -/
theorem Declare.Registration.holdsFields {p : Program} {c : Context} {s : State} {o : ScopeStack}
    (run : Registration p c s) {env : Environment} (hl : Live c s o) (hown : s.own? c = some env)
    (hfresh : env.IsFresh) (hidents : p.typeIdents.Nodup) :
    ∃ e, run.final.own? c = some e ∧ HoldsFields c.env p e := by
  obtain ⟨-, hl₃⟩ := run.steps_resolved hl
  obtain ⟨e₃, hown₃, hholds₃⟩ := run.own_resolved hl hown hfresh
  have hreached := (runs_builds hl₃ hown₃ hholds₃ hidents).apply run.fills
  obtain ⟨e₄, hown₄, hholds₄, hbuilt₄⟩ := hreached.own
  obtain ⟨e, hown', htables⟩ := run.tables_final hreached.live hown₄
  have hfirsts := hholds₄.of_tables_eq htables
  have hbuilt := hbuilt₄.of_tables_eq htables
  refine ⟨e, hown', hfirsts, fun decl hdecl howns => ?_, fun decl hdecl howns => ?_⟩
  · obtain ⟨_, _, t, t', info, _, -, -, hmembers, hinfo⟩ :=
      hbuilt.classes _ _ (Program.first?_of_owns hidents hdecl rfl howns)
    obtain ⟨hregisters, hconstructor⟩ := registers_classMembers decl c t _ t' hmembers
    exact ⟨info, hinfo, (hfirsts.owns_class_iff hinfo).1 howns, hconstructor, hregisters⟩
  · have hentity := hbuilt.entities _ _ (Program.first?_of_owns hidents hdecl rfl howns)
    obtain ⟨info', hinfo', hlifecycles⟩ := hentity.registersFirsts hl₃
    obtain ⟨_, _, t, t', info, _, _, -, -, hmembers, hinfo, -⟩ := hentity
    obtain rfl := Option.some.inj (hinfo.symm.trans hinfo')
    exact ⟨info, hinfo, (hfirsts.owns_entity_iff hinfo).1 howns,
      fun kind hkind => (hlifecycles.isSome kind).trans hkind,
      registers_entityMembers decl c t _ t' hmembers⟩

end HybroidSema
