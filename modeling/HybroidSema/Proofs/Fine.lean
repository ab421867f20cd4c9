import HybroidSema.Proofs.Plain
import HybroidSema.Proofs.Valid

/-!
# Registries of fine values

A registry is fine if it is valid and, where that is asked, every value that it stores is plain, and
what can change has forgotten its number. This is what the operations of the analyzer keep.

* `Variable.Fine`, `ScopeStack.Fine`, `Environment.Fine` and `Registry.Fine`.
* `Variable.Forgets`: only a constant knows its number, or a field in the body of its container.
* What the operations on scopes and members keep.
* What look-ups in a fine registry find.
* `Registry.Fine.modify`: a change of one environment that keeps its declarations.
* `Registry.Fine.valid` and `Registry.Valid.fine`: fine registries are valid, and valid ones are fine
  where plainness is not asked.
-/

namespace HybroidSema

variable {plain : Prop} {r r' : Registry}

/-! ## Variables and scopes -/

/-- The value is fine, and only a constant has a literal in its place. -/
structure Variable.Fine (plain : Prop) (r : Registry) (v : Variable) : Prop where
  value : v.value.Fine plain r
  constant : v.constant.isSome → v.isConst = true

theorem Variable.Fine.mono (h : r.Extends r') {v : Variable} (hv : v.Fine plain r) :
    v.Fine plain r' :=
  ⟨hv.value.mono h, hv.constant⟩

/-- What can change does not know its number. -/
def Variable.Forgets (v : Variable) : Prop := v.isConst = false → v.value.literal? = none

theorem Value.literal?_forgetLiteral (v : Value) : v.forgetLiteral.literal? = none := by
  cases v <;> rfl

theorem Ty.literal?_toValue (ty : Ty) : ty.toValue.literal? = none := by
  cases ty with
  | basic primitive => cases primitive <;> rfl
  | named _ _ kind => cases kind <;> rfl
  | container kind _ => cases kind <;> rfl
  | _ => rfl

/-- Whether this is the body of a class or entity. -/
def Scope.isContainer (s : Scope) : Bool := s.tag.container?.isSome

/-- The tag of a scope is valid and its variables are fine. Only in the body of a class or entity a
variable that can change may know its number. -/
structure Scope.Fine (plain : Prop) (r : Registry) (s : Scope) : Prop where
  tag : s.tag.Valid r
  bindings : s.bindings.Forall (Variable.Fine plain r)
  numbers : plain → s.isContainer = false → s.bindings.Forall Variable.Forgets

theorem Scope.Fine.mono (h : r.Extends r') {s : Scope} (hs : s.Fine plain r) : s.Fine plain r' :=
  ⟨hs.tag.mono h, hs.bindings.imp fun _ hv => hv.mono h, hs.numbers⟩

/-- Every open scope is fine, and the root is no body of a class or entity. -/
structure ScopeStack.Fine (plain : Prop) (r : Registry) (s : ScopeStack) : Prop where
  scopes : ∀ scope ∈ s.chain, scope.Fine plain r
  root : plain → s.root.isContainer = false

namespace ScopeStack

/-- Which of the scopes above the root are bodies of classes or entities, the innermost first. -/
def containers (s : ScopeStack) : List Bool := s.inner.map Scope.isContainer

theorem containers_modifyCurrent (s : ScopeStack) {f : Scope → Scope}
    (hf : (f s.current).isContainer = s.current.isContainer) :
    (s.modifyCurrent f).containers = s.containers := by
  unfold containers modifyCurrent
  unfold current at hf
  cases h : s.inner with
  | nil => rfl
  | cons scope rest => simpa [h] using hf

theorem containers_modifyAt (s : ScopeStack) (position : Nat) {f : Scope → Scope}
    (hf : ∀ scope, (f scope).isContainer = scope.isContainer) :
    (s.modifyAt position f).containers = s.containers := by
  unfold containers modifyAt
  split
  · rfl
  · split
    · refine List.ext_getElem? fun i => ?_
      simp only [List.getElem?_map, List.getElem?_modify]
      cases s.inner[i]? with
      | none => rfl
      | some scope => by_cases h : s.inner.length - position = i <;> simp [h, hf]
    · rfl

theorem containers_modifyVariable (s : ScopeStack) (position : Nat) (name : String)
    (f : Variable → Variable) : (s.modifyVariable position name f).containers = s.containers :=
  s.containers_modifyAt position fun _ => rfl

theorem isContainer_current (s : ScopeStack) :
    s.current.isContainer = s.containers.head?.getD s.root.isContainer := by
  unfold containers current
  cases s.inner <;> rfl

variable {s s' : ScopeStack}

theorem Fine.mono (h : r.Extends r') (hs : s.Fine plain r) : s.Fine plain r' :=
  ⟨fun scope hscope => (hs.scopes scope hscope).mono h, hs.root⟩

theorem fine_iff :
    s.Fine plain r ↔ (s.root.Fine plain r ∧ (plain → s.root.isContainer = false)) ∧
      ∀ scope ∈ s.inner, scope.Fine plain r := by
  have hchain (scope : Scope) : scope ∈ s.chain ↔ scope ∈ s.inner ∨ scope = s.root := by
    rw [chain, List.mem_append, List.mem_singleton]
  refine ⟨fun h => ⟨⟨h.scopes _ ((hchain _).2 (.inr rfl)), h.root⟩, fun scope hs =>
    h.scopes scope ((hchain _).2 (.inl hs))⟩, fun h => ⟨fun scope hs => ?_, h.1.2⟩⟩
  rcases (hchain _).1 hs with hs | rfl
  · exact h.2 scope hs
  · exact h.1.1

theorem Fine.current (h : s.Fine plain r) : s.current.Fine plain r := by
  rw [fine_iff] at h
  unfold ScopeStack.current
  cases hi : s.inner with
  | nil => exact h.1.1
  | cons scope rest => exact h.2 scope (by simp [hi])

theorem Fine.get? (h : s.Fine plain r) {position : Nat} {scope : Scope}
    (hs : s.get? position = some scope) : scope.Fine plain r := by
  unfold ScopeStack.get? at hs
  split at hs
  · exact h.scopes scope (List.mem_of_getElem? hs)
  · cases hs

theorem Fine.binding? (h : s.Fine plain r) {position : Nat} {name : String} {v : Variable}
    (hv : s.binding? position name = some v) : v.Fine plain r := by
  obtain ⟨scope, hscope, hget⟩ := Option.bind_eq_some_iff.1 hv
  exact (h.get? hscope).bindings.get? hget

/-- A change of the innermost scope. -/
theorem Fine.modifyCurrent (h : s.Fine plain r) {f : Scope → Scope}
    (hf : (f s.current).Fine plain r) (hc : (f s.current).isContainer = s.current.isContainer) :
    (s.modifyCurrent f).Fine plain r := by
  rw [fine_iff] at h ⊢
  unfold ScopeStack.modifyCurrent
  unfold ScopeStack.current at hf hc
  cases hi : s.inner with
  | nil =>
    rw [hi] at hf hc
    exact ⟨⟨hf, fun hp => hc.trans (h.1.2 hp)⟩, by simp⟩
  | cons scope rest =>
    rw [hi] at hf
    exact ⟨h.1, List.forall_mem_cons.2 ⟨hf, fun other ho => h.2 other (by simp [hi, ho])⟩⟩

/-- A change of the scope at a position. -/
theorem Fine.modifyAt (h : s.Fine plain r) (position : Nat) {f : Scope → Scope}
    (hf : ∀ scope, s.get? position = some scope → scope.Fine plain r → (f scope).Fine plain r)
    (hc : ∀ scope, (f scope).isContainer = scope.isContainer) :
    (s.modifyAt position f).Fine plain r := by
  rw [fine_iff] at h ⊢
  unfold ScopeStack.modifyAt
  split_ifs with hroot hinner
  · subst hroot
    exact ⟨⟨hf _ (by simp [ScopeStack.get?, chain]) h.1.1, fun hp => (hc _).trans (h.1.2 hp)⟩, h.2⟩
  · refine ⟨h.1, fun scope hs => ?_⟩
    obtain ⟨i, hi⟩ := List.mem_iff_getElem?.1 hs
    rw [List.getElem?_modify] at hi
    obtain ⟨old, hold, heq⟩ := Option.map_eq_some_iff.1 hi
    have hvalid := h.2 old (List.mem_of_getElem? hold)
    split at heq
    · next hindex =>
      have hget : s.get? position = some old := by
        rw [ScopeStack.get?, if_pos hinner, hindex, chain,
          List.getElem?_append_left (List.getElem?_eq_some_iff.1 hold).1, hold]
      exact heq ▸ hf old hget hvalid
    · exact heq ▸ hvalid
  · exact h

theorem Fine.modifyVariable (h : s.Fine plain r) (position : Nat) (name : String)
    {f : Variable → Variable} (hf : ∀ v, v.Fine plain r → (f v).Fine plain r)
    (hn : ∀ v, v.Forgets → (f v).Forgets) : (s.modifyVariable position name f).Fine plain r :=
  h.modifyAt position (fun _ _ hscope => ⟨hscope.tag, hscope.bindings.modify name hf,
    fun hp hother => (hscope.numbers hp hother).modify name hn⟩) fun _ => rfl

theorem fine_declareIn {scope scope' : Scope} {v : Variable} (h : scope.Fine plain r)
    (hv : v.Fine plain r) (hn : scope.isContainer = false → v.Forgets)
    (hd : scope.declare v = .ok scope') : scope'.Fine plain r := by
  unfold Scope.declare at hd
  split at hd
  · cases hd
  · cases hd
    exact ⟨h.tag, h.bindings.insert v.name hv,
      fun hp hother => (h.numbers hp hother).insert v.name (hn hother)⟩

theorem isContainer_declare {scope scope' : Scope} {v : Variable}
    (hd : scope.declare v = .ok scope') : scope'.isContainer = scope.isContainer := by
  unfold Scope.declare at hd
  split at hd <;> cases hd
  rfl

theorem Fine.declare (h : s.Fine plain r) {v : Variable} (hv : v.Fine plain r)
    (hn : s.current.isContainer = false → v.Forgets) (hd : s.declare v = .ok s') :
    s'.Fine plain r := by
  unfold ScopeStack.declare at hd
  cases hscope : s.current.declare v with
  | error e => simp [hscope, Except.map] at hd
  | ok scope =>
    simp only [hscope, Except.map, Except.ok.injEq] at hd
    exact hd ▸ h.modifyCurrent (fine_declareIn h.current hv hn hscope) (isContainer_declare hscope)

theorem Fine.declareRoot (h : s.Fine plain r) {v : Variable} (hv : v.Fine plain r)
    (hn : v.Forgets) (hd : s.declareRoot v = .ok s') : s'.Fine plain r := by
  unfold ScopeStack.declareRoot at hd
  cases hscope : s.root.declare v with
  | error e => simp [hscope, Except.map] at hd
  | ok scope =>
    simp only [hscope, Except.map, Except.ok.injEq] at hd
    rw [fine_iff] at h
    rw [← hd, fine_iff]
    exact ⟨⟨fine_declareIn h.1.1 hv (fun _ => hn) hscope,
      fun hp => (isContainer_declare hscope).trans (h.1.2 hp)⟩, h.2⟩

theorem Fine.enter (h : s.Fine plain r) {tag : ScopeTag} (ht : tag.Valid r)
    (permits : Permissions) : (s.enter tag permits).Fine plain r := by
  rw [fine_iff] at h ⊢
  exact ⟨h.1, List.forall_mem_cons.2
    ⟨⟨ht, Table.forall_empty, fun _ _ => Table.forall_empty⟩, h.2⟩⟩

theorem isContainer_receive (scope : Scope) (exits : Exits) :
    (scope.receive exits).isContainer = scope.isContainer := by
  unfold Scope.receive Scope.isContainer
  split <;> simp [*, ScopeTag.container?]

theorem fine_receive {scope : Scope} (h : scope.Fine plain r) (exits : Exits) :
    (scope.receive exits).Fine plain r := by
  refine ⟨?_, (Scope.bindings_receive scope exits).symm ▸ h.bindings, fun hp hother => ?_⟩
  · have htag := h.tag
    unfold Scope.receive
    split
    · trivial
    · next tag heq =>
      rw [heq] at htag
      exact htag
    · exact htag
  · rw [Scope.bindings_receive]
    exact h.numbers hp ((isContainer_receive scope exits).symm.trans hother)

theorem Fine.close? (h : s.Fine plain r) {scope : Scope} {below : ScopeStack}
    (hc : s.close? = some (scope, below)) : scope.Fine plain r ∧ below.Fine plain r := by
  rw [fine_iff] at h
  unfold ScopeStack.close? at hc
  split at hc
  · cases hc
  · next top rest hi =>
    rw [hi, List.forall_mem_cons] at h
    have hbelow : ({ s with inner := rest } : ScopeStack).Fine plain r := fine_iff.2 ⟨h.1, h.2.2⟩
    dsimp only at hc
    split at hc
    · cases hc
      exact ⟨h.2.1, hbelow.modifyCurrent (fine_receive hbelow.current _)
        (isContainer_receive _ _)⟩
    · cases hc
      exact ⟨h.2.1, hbelow⟩

/-- The class or entity around is declared. -/
theorem Fine.container? (h : s.Fine plain r) {ref : DeclRef} {kind : NamedKind}
    (hc : s.container? = some (ref, kind)) : r.Has ref kind := by
  unfold ScopeStack.container? at hc
  obtain ⟨scope, hscope, hc⟩ := List.exists_of_findSome?_eq_some hc
  have htag := (h.scopes scope hscope).tag
  cases ht : scope.tag with
  | classBody ref' | entityBody ref' =>
    rw [ht] at hc htag
    cases hc
    exact htag
  | _ =>
    rw [ht] at hc
    cases hc

/-- The return types of the function around are declared. -/
theorem Fine.func? (h : s.Fine plain r) {tag : FuncTag} (hf : s.func? = some tag) :
    Ty.AllDeclared r tag.returns := by
  unfold ScopeStack.func? at hf
  obtain ⟨scope, hscope, hf⟩ := List.exists_of_findSome?_eq_some hf
  have htag := (h.scopes scope hscope).tag
  cases ht : scope.tag with
  | func tag' =>
    rw [ht] at hf htag
    cases hf
    exact htag
  | _ =>
    rw [ht] at hf
    cases hf

end ScopeStack

/-! ## Members and declared types -/

/-- The fields of a class or entity are fine and its methods declared. -/
structure Members.Fine (plain : Prop) (r : Registry) (m : Members) : Prop where
  fields : ∀ field ∈ m.fields, field.Fine plain r
  methods : m.methods.Forall fun method => method.signature.Declared r

namespace Members

variable {m m' : Members}

theorem Fine.mono (h : r.Extends r') (hm : m.Fine plain r) : m.Fine plain r' :=
  ⟨fun field hf => (hm.fields field hf).mono h, hm.methods.imp fun _ hs => hs.mono h⟩

theorem fine_empty : ({} : Members).Fine plain r := ⟨nofun, Table.forall_empty⟩

theorem Fine.field? (h : m.Fine plain r) {name : String} {index : Nat} {v : Variable}
    (hf : m.field? name = some (index, v)) : v.Fine plain r := by
  unfold Members.field? at hf
  obtain ⟨i, -, hf⟩ := Option.bind_eq_some_iff.1 hf
  obtain ⟨field, hget, hf⟩ := Option.bind_eq_some_iff.1 hf
  cases hf
  exact h.fields v (List.mem_of_getElem? hget)

theorem Fine.method? (h : m.Fine plain r) {name : String} {method : Method}
    (hm : m.method? name = some method) : method.signature.Declared r :=
  h.methods.get? hm

theorem Fine.addField (h : m.Fine plain r) {field : Variable} (hf : field.Fine plain r)
    (ha : m.addField field = .ok m') : m'.Fine plain r := by
  unfold Members.addField at ha
  split at ha
  · cases ha
  · cases ha
    refine ⟨fun other ho => ?_, h.methods⟩
    rcases List.mem_append.1 ho with ho | ho
    · exact h.fields other ho
    · rw [List.mem_singleton.1 ho]
      exact hf

theorem Fine.addMethod (h : m.Fine plain r) {name : String} {signature : Signature} {span : Span}
    (hs : signature.Declared r) (ha : m.addMethod name signature span = .ok m') :
    m'.Fine plain r := by
  unfold Members.addMethod at ha
  split at ha
  · cases ha
  · cases ha
    exact ⟨h.fields, h.methods.insert name hs⟩

theorem Fine.setField (h : m.Fine plain r) (name : String) {value : Value}
    (hv : value.Fine plain r) : (m.setField name value).Fine plain r := by
  refine ⟨?_, h.methods⟩
  have hfields := h.fields
  unfold Members.setField
  generalize m.fields = fields at hfields
  induction fields with
  | nil => exact nofun
  | cons field rest ih =>
    rw [List.forall_mem_cons] at hfields
    unfold setFieldIn
    split
    · exact List.forall_mem_cons.2 ⟨⟨hv, hfields.1.constant⟩, hfields.2⟩
    · exact List.forall_mem_cons.2 ⟨hfields.1, ih hfields.2⟩

end Members

/-- A declared class with everything it stores. -/
structure ClassInfo.Fine (plain : Prop) (r : Registry) (info : ClassInfo) : Prop where
  ty : r.HasClass info.ty
  members : info.members.Fine plain r
  constructor : ∀ signature ∈ info.constructor, signature.Declared r

/-- A declared entity with everything it stores. -/
structure EntityInfo.Fine (plain : Prop) (r : Registry) (info : EntityInfo) : Prop where
  ty : r.HasEntity info.ty
  members : info.members.Fine plain r
  spawner : ∀ signature ∈ info.spawner, signature.Declared r
  destroyer : ∀ signature ∈ info.destroyer, signature.Declared r
  callbacks : ∀ callback ∈ info.callbacks, callback.2.Declared r

theorem ClassInfo.Fine.mono (h : r.Extends r') {info : ClassInfo} (hi : info.Fine plain r) :
    info.Fine plain r' :=
  ⟨h.classes _ hi.ty, hi.members.mono h, fun s hs => (hi.constructor s hs).mono h⟩

theorem EntityInfo.Fine.mono (h : r.Extends r') {info : EntityInfo} (hi : info.Fine plain r) :
    info.Fine plain r' :=
  ⟨h.entities _ hi.ty, hi.members.mono h, fun s hs => (hi.spawner s hs).mono h,
    fun s hs => (hi.destroyer s hs).mono h, fun s hs => (hi.callbacks s hs).mono h⟩

theorem EntityInfo.Fine.lifecycle? {info : EntityInfo} (h : info.Fine plain r)
    {kind : LifecycleKind} {signature : Signature} (hs : info.lifecycle? kind = some signature) :
    signature.Declared r := by
  unfold EntityInfo.lifecycle? at hs
  split at hs
  · exact h.spawner signature hs
  · exact h.destroyer signature hs
  · obtain ⟨l₁, l₂, hcallbacks, -⟩ := List.lookup_eq_some_iff.1 hs
    exact h.callbacks (kind, signature) (by rw [hcallbacks]; simp)

/-! ## Environments -/

/-- Everything that an environment stores is fine. -/
structure Environment.Fine (plain : Prop) (r : Registry) (e : Environment) : Prop where
  scopes : e.scopes.Fine plain r
  classes : e.classes.Forall (ClassInfo.Fine plain r)
  entities : e.entities.Forall (EntityInfo.Fine plain r)
  enums : e.enums.Forall fun info => r.HasEnum info.ty
  aliases : e.aliases.Forall fun info => info.ty.Declared r
  imports : ∀ target ∈ e.imports, r.Named target

theorem Environment.Fine.mono (h : r.Extends r') {e : Environment} (he : e.Fine plain r) :
    e.Fine plain r' :=
  ⟨he.scopes.mono h, he.classes.imp fun _ hi => hi.mono h, he.entities.imp fun _ hi => hi.mono h,
    he.enums.imp fun _ hi => h.enums _ hi, he.aliases.imp fun _ hi => hi.mono h,
    fun target ht => h.named (he.imports target ht)⟩

/-- The other environment has the same handle and name, and every declared name of this one. -/
structure Environment.Grows (e e' : Environment) : Prop where
  label : e'.label = e.label
  classes : ∀ name, (e.classes.get? name).isSome → (e'.classes.get? name).isSome
  entities : ∀ name, (e.entities.get? name).isSome → (e'.entities.get? name).isSome
  enums : ∀ name, (e.enums.get? name).isSome → (e'.enums.get? name).isSome

theorem Environment.Grows.of_eq {e e' : Environment} (hlabel : e'.label = e.label)
    (hclasses : e'.classes = e.classes) (hentities : e'.entities = e.entities)
    (henums : e'.enums = e.enums) : e.Grows e' :=
  ⟨hlabel, fun _ h => hclasses ▸ h, fun _ h => hentities ▸ h, fun _ h => henums ▸ h⟩

theorem Environment.Grows.refl (e : Environment) : e.Grows e := .of_eq rfl rfl rfl rfl

theorem Table.isSome_get?_modify {α : Type} {t : Table α} {name : String} (other : String)
    (f : α → α) (h : (t.get? name).isSome) : ((t.modify other f).get? name).isSome := by
  rw [Table.get?_modify]
  split
  · simpa using h
  · exact h

theorem Table.isSome_get?_insert {α : Type} {t : Table α} {name : String} (other : String)
    (v : α) (h : (t.get? name).isSome) : ((t.insert other v).get? name).isSome := by
  rw [Table.get?_insert]
  split
  · rfl
  · exact h

theorem Environment.grows_modifyMembers (e : Environment) (kind : NamedKind) (name : String)
    (f : Members → Members) : e.Grows (e.modifyMembers kind name f) := by
  cases kind with
  | classDecl => exact ⟨rfl, fun _ => Table.isSome_get?_modify _ _, fun _ h => h, fun _ h => h⟩
  | entityDecl => exact ⟨rfl, fun _ h => h, fun _ => Table.isSome_get?_modify _ _, fun _ h => h⟩

theorem Environment.Fine.setField {e : Environment} (h : e.Fine plain r) (kind : NamedKind)
    (container field : String) {value : Value} (hv : value.Fine plain r) :
    (e.modifyMembers kind container (·.setField field value)).Fine plain r := by
  cases kind with
  | classDecl =>
    exact ⟨h.scopes, h.classes.modify container fun info hi =>
      ⟨hi.ty, hi.members.setField field hv, hi.constructor⟩, h.entities, h.enums, h.aliases,
      h.imports⟩
  | entityDecl =>
    exact ⟨h.scopes, h.classes, h.entities.modify container fun info hi =>
      ⟨hi.ty, hi.members.setField field hv, hi.spawner, hi.destroyer, hi.callbacks⟩, h.enums,
      h.aliases, h.imports⟩

/-! ## Registries -/

namespace Registry

/-- Every environment is fine and stands at the position that its handle names. -/
structure Fine (plain : Prop) (r : Registry) : Prop where
  ids : ∀ id env, r.get? id = some env → env.id = id
  envs : ∀ id env, r.get? id = some env → env.Fine plain r

theorem Extends.of_envs_eq (h : r'.envs = r.envs) : r.Extends r' := by
  have hget := get?_of_envs_eq h
  refine ⟨by rw [h], fun ref hr => ?_, fun ref hr => ?_, fun ref hr => ?_⟩
  · simpa only [HasClass, class?, hget] using hr
  · simpa only [HasEntity, entity?, hget] using hr
  · simpa only [HasEnum, enum?, hget] using hr

theorem Fine.of_envs_eq (hr : r.Fine plain) (h : r'.envs = r.envs) : r'.Fine plain := by
  have hget := get?_of_envs_eq h
  exact ⟨fun id env he => hr.ids id env (hget id ▸ he),
    fun id env he => (hr.envs id env (hget id ▸ he)).mono (.of_envs_eq h)⟩

/-- Registries whose environments grow. -/
theorem Extends.of_grows
    (hlabels : r'.envs.map Environment.label = r.envs.map Environment.label)
    (h : ∀ id env, r.get? id = some env → ∃ env', r'.get? id = some env' ∧ env.Grows env') :
    r.Extends r' := by
  refine ⟨hlabels, fun ref hr => ?_, fun ref hr => ?_, fun ref hr => ?_⟩
  · unfold HasClass class? at *
    cases he : r.get? ref.env with
    | none => simp [he] at hr
    | some env =>
      obtain ⟨env', he', hgrows⟩ := h _ env he
      rw [he] at hr
      rw [he']
      exact hgrows.classes _ hr
  · unfold HasEntity entity? at *
    cases he : r.get? ref.env with
    | none => simp [he] at hr
    | some env =>
      obtain ⟨env', he', hgrows⟩ := h _ env he
      rw [he] at hr
      rw [he']
      exact hgrows.entities _ hr
  · unfold HasEnum enum? at *
    cases hl : ref.env.library? with
    | some library => simpa [hl] using hr
    | none =>
      cases he : r.get? ref.env with
      | none => simp [hl, he] at hr
      | some env =>
        obtain ⟨env', he', hgrows⟩ := h _ env he
        simp only [hl, he, Option.bind_some] at hr
        simp only [he', Option.bind_some]
        exact hgrows.enums _ hr

/-- The handles and names after a change of one environment that keeps its own. -/
theorem labels_modify {id : EnvId} {f : Environment → Environment}
    (hf : ∀ env, r.get? id = some env → (f env).label = env.label) :
    (r.modify id f).envs.map Environment.label = r.envs.map Environment.label := by
  unfold Registry.modify
  cases hi : id.userIndex? with
  | none => rfl
  | some i =>
    refine List.ext_getElem? fun j => ?_
    simp only [List.getElem?_map, List.getElem?_modify]
    cases he : r.envs[j]? with
    | none => rfl
    | some env =>
      by_cases hij : i = j
      · subst hij
        simpa using hf env (by simp [Registry.get?, hi, he])
      · simp [hij]

/-- A change of one environment that keeps its declared names. -/
theorem extends_modify {id : EnvId} {f : Environment → Environment}
    (hf : ∀ env, r.get? id = some env → env.Grows (f env)) : r.Extends (r.modify id f) := by
  refine .of_grows (labels_modify fun env he => (hf env he).label) fun other env he => ?_
  by_cases hid : other = id
  · subst hid
    exact ⟨f env, by rw [get?_modify_self, he]; rfl, hf env he⟩
  · exact ⟨env, (get?_modify_ne r f hid).trans he, .refl env⟩

theorem Fine.modify (h : r.Fine plain) {id : EnvId} {f : Environment → Environment}
    (hf : ∀ env, r.get? id = some env → env.Grows (f env) ∧ (f env).Fine plain (r.modify id f)) :
    (r.modify id f).Fine plain := by
  have hext := extends_modify fun env he => (hf env he).1
  refine ⟨fun other env he => ?_, fun other env he => ?_⟩
  all_goals by_cases hid : other = id
  · subst hid
    rw [get?_modify_self] at he
    obtain ⟨old, hold, rfl⟩ := Option.map_eq_some_iff.1 he
    have hid : (f old).id = old.id := congrArg Prod.fst (hf old hold).1.label
    exact hid.trans (h.ids other old hold)
  · exact h.ids other env (get?_modify_ne r f hid ▸ he)
  · subst hid
    rw [get?_modify_self] at he
    obtain ⟨old, hold, rfl⟩ := Option.map_eq_some_iff.1 he
    exact (hf old hold).2
  · exact (h.envs other env (get?_modify_ne r f hid ▸ he)).mono hext

/-! ### Look-ups -/

variable {id : EnvId} {env : Environment} {name : String}

theorem Fine.class? (h : r.Fine plain) {ref : DeclRef} {info : ClassInfo}
    (hi : r.class? ref = some info) : info.Fine plain r := by
  obtain ⟨env, he, hi⟩ := Option.bind_eq_some_iff.1 hi
  exact (h.envs _ env he).classes.get? hi

theorem Fine.entity? (h : r.Fine plain) {ref : DeclRef} {info : EntityInfo}
    (hi : r.entity? ref = some info) : info.Fine plain r := by
  obtain ⟨env, he, hi⟩ := Option.bind_eq_some_iff.1 hi
  exact (h.envs _ env he).entities.get? hi

theorem hasClass_of_get? (he : r.get? id = some env) {info : ClassInfo}
    (hi : env.classes.get? name = some info) : r.HasClass ⟨id, name⟩ := by
  simp [HasClass, Registry.class?, he, hi]

theorem hasEntity_of_get? (he : r.get? id = some env) {info : EntityInfo}
    (hi : env.entities.get? name = some info) : r.HasEntity ⟨id, name⟩ := by
  simp [HasEntity, Registry.entity?, he, hi]

theorem hasEnum_of_get? (he : r.get? id = some env) {info : EnumInfo}
    (hi : env.enums.get? name = some info) : r.HasEnum ⟨id, name⟩ := by
  simp [HasEnum, enum?, library?_of_get? he, he, hi]

/-- The type that a name of an environment stands for is declared. -/
theorem Fine.declaredType? (h : r.Fine plain) (he : r.get? id = some env) {declared : DeclaredType}
    (hd : env.declaredType? name = some declared) : declared.ty.Declared r := by
  have hid := h.ids id env he
  unfold Environment.declaredType? at hd
  simp only [Option.orElse_eq_orElse, Option.orElse_eq_or, Option.or_eq_some_iff,
    Option.map_eq_some_iff] at hd
  rcases hd with ⟨info, hi, rfl⟩ | ⟨-, ⟨info, hi, rfl⟩ | ⟨-, ⟨info, hi, rfl⟩ |
    ⟨-, info, hi, rfl⟩⟩⟩
  · exact hid ▸ hasClass_of_get? he hi
  · exact hid ▸ hasEntity_of_get? he hi
  · exact hid ▸ hasEnum_of_get? he hi
  · exact (h.envs id env he).aliases.get? hi

/-- What is found by a name is named so. -/
theorem Fine.named (h : r.Fine plain) {target : EnvId} (ht : r.lookup? name = some target) :
    r.Named target := by
  have hname : r.nameOf target = name := by
    unfold lookup? at ht
    cases hfind : r.envs.find? (·.name == name) with
    | some env =>
      obtain ⟨i, hi⟩ := List.mem_iff_getElem?.1 (List.mem_of_find?_eq_some hfind)
      have hget : r.get? (.user i) = some env := by simpa using hi
      obtain rfl : env.id = target := by simpa [hfind] using ht
      have hid := h.ids _ env hget
      rw [hid, nameOf, EnvId.library?_user, hget]
      simpa using List.find?_some hfind
    | none =>
      obtain ⟨library, hlibrary, rfl⟩ : ∃ library, Library.ofName? name = some library ∧
          EnvId.ofLibrary library = target := by simpa [hfind] using ht
      rw [nameOf, EnvId.library?_ofLibrary]
      simpa using List.find?_some hlibrary
  rw [Named, hname]
  exact ht

theorem Fine.rootVariable? (h : r.Fine plain) (he : r.get? id = some env) {v : Variable}
    (hv : env.rootVariable? name = some v) : v.Fine plain r :=
  (ScopeStack.fine_iff.1 (h.envs id env he).scopes).1.1.bindings.get? hv

/-- The members of a class or entity. -/
def members? (r : Registry) (ref : DeclRef) (kind : NamedKind) : Option Members :=
  (r.get? ref.env).bind (·.members? kind ref.name)

theorem isSome_members? {ref : DeclRef} {kind : NamedKind} (h : r.Has ref kind) :
    (r.members? ref kind).isSome := by
  unfold members?
  cases kind with
  | classDecl =>
    obtain ⟨info, hi⟩ := Option.isSome_iff_exists.1 h
    obtain ⟨env, he, hi⟩ := Option.bind_eq_some_iff.1 hi
    simp [he, hi, Environment.members?]
  | entityDecl =>
    obtain ⟨info, hi⟩ := Option.isSome_iff_exists.1 h
    obtain ⟨env, he, hi⟩ := Option.bind_eq_some_iff.1 hi
    simp [he, hi, Environment.members?]

theorem Fine.members? (h : r.Fine plain) {ref : DeclRef} {kind : NamedKind} {m : Members}
    (hm : r.members? ref kind = some m) : m.Fine plain r := by
  obtain ⟨env, he, hm⟩ := Option.bind_eq_some_iff.1 hm
  cases kind with
  | classDecl =>
    obtain ⟨info, hi, rfl⟩ := Option.map_eq_some_iff.1 hm
    exact ((h.envs _ env he).classes.get? hi).members
  | entityDecl =>
    obtain ⟨info, hi, rfl⟩ := Option.map_eq_some_iff.1 hm
    exact ((h.envs _ env he).entities.get? hi).members

end Registry

/-! ## Fine and valid -/

section

variable {plain : Prop} {r : Registry}

theorem Variable.Fine.valid {v : Variable} (h : v.Fine plain r) : v.Valid r :=
  ⟨h.value.declared, h.constant⟩

theorem Scope.Fine.valid {s : Scope} (h : s.Fine plain r) : s.Valid r :=
  ⟨h.tag, h.bindings.imp fun _ hv => hv.valid⟩

theorem Members.Fine.valid {m : Members} (h : m.Fine plain r) : m.Valid r :=
  ⟨fun field hf => (h.fields field hf).valid, h.methods⟩

theorem ClassInfo.Fine.valid {info : ClassInfo} (h : info.Fine plain r) : info.Valid r :=
  ⟨h.ty, h.members.valid, h.constructor⟩

theorem EntityInfo.Fine.valid {info : EntityInfo} (h : info.Fine plain r) : info.Valid r :=
  ⟨h.ty, h.members.valid, h.spawner, h.destroyer, h.callbacks⟩

theorem Environment.Fine.valid {e : Environment} (h : e.Fine plain r) : e.Valid r :=
  ⟨fun scope hs => (h.scopes.scopes scope hs).valid, h.classes.imp fun _ hi => hi.valid,
    h.entities.imp fun _ hi => hi.valid, h.enums, h.aliases, h.imports⟩

/-- Nothing in a fine registry is dangling. -/
theorem Registry.Fine.valid (h : r.Fine plain) : r.Valid :=
  ⟨h.ids, fun id env he => (h.envs id env he).valid⟩

theorem Variable.Valid.fine (hp : ¬plain) {v : Variable} (h : v.Valid r) : v.Fine plain r :=
  ⟨⟨h.value, fun hk => absurd hk hp⟩, h.constant⟩

theorem Members.Valid.fine (hp : ¬plain) {m : Members} (h : m.Valid r) : m.Fine plain r :=
  ⟨fun field hf => (h.fields field hf).fine hp, h.methods⟩

theorem Environment.Valid.fine (hp : ¬plain) {e : Environment} (h : e.Valid r) : e.Fine plain r :=
  ⟨⟨fun scope hs => ⟨(h.scopes scope hs).tag, (h.scopes scope hs).bindings.imp fun _ hv =>
      hv.fine hp, fun hk => absurd hk hp⟩, fun hk => absurd hk hp⟩,
    h.classes.imp fun _ hi => ⟨hi.ty, hi.members.fine hp, hi.constructor⟩,
    h.entities.imp fun _ hi =>
      ⟨hi.ty, hi.members.fine hp, hi.spawner, hi.destroyer, hi.callbacks⟩,
    h.enums, h.aliases, h.imports⟩

/-- A valid registry is fine if plainness is not asked. -/
theorem Registry.Valid.fine (hp : ¬plain) (h : r.Valid) : r.Fine plain :=
  ⟨h.ids, fun id env he => (h.envs id env he).fine hp⟩

end

end HybroidSema
