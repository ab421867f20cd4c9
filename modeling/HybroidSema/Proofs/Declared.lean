import HybroidSema.Arguments
import HybroidSema.Library.Contents
import HybroidSema.Proofs.Outline
import HybroidSema.Registry

/-!
# Types whose declarations exist

A class, entity or enum type names a declaration by its environment and its name there. A type or
value is declared in a registry if every name in it has its declaration. Registries only gain
declarations, and what is declared stays so.

* `Registry.HasClass`, `HasEntity`, `HasEnum` and `Registry.Extends`.
* `Ty.Declared`, `Signature.Declared` and `Value.Declared`, with `mono` for each.
* What the analyzer computes from declared types is declared: values of types, types of values,
  and types with their generics replaced.
* What the libraries declare is declared everywhere.
-/

namespace HybroidSema

/-! ## Declarations -/

/-- The handle and the name of an environment. -/
def Environment.label (e : Environment) : EnvId × String := (e.id, e.name)

namespace Registry

/-- A class that a reference names. -/
def class? (r : Registry) (ref : DeclRef) : Option ClassInfo :=
  (r.get? ref.env).bind (·.classes.get? ref.name)

/-- An entity that a reference names. -/
def entity? (r : Registry) (ref : DeclRef) : Option EntityInfo :=
  (r.get? ref.env).bind (·.entities.get? ref.name)

/-- An enum that a reference names, of a library or of user code. -/
def enum? (r : Registry) (ref : DeclRef) : Option EnumInfo :=
  match ref.env.library? with
  | some library => library.enum? ref.name
  | none => (r.get? ref.env).bind (·.enums.get? ref.name)

/-- The reference names a declared class. -/
def HasClass (r : Registry) (ref : DeclRef) : Prop := (r.class? ref).isSome

/-- The reference names a declared entity. -/
def HasEntity (r : Registry) (ref : DeclRef) : Prop := (r.entity? ref).isSome

/-- The reference names a declared enum. -/
def HasEnum (r : Registry) (ref : DeclRef) : Prop := (r.enum? ref).isSome

/-- The reference names a declared class or entity. -/
def Has (r : Registry) (ref : DeclRef) : NamedKind → Prop
  | .classDecl => r.HasClass ref
  | .entityDecl => r.HasEntity ref

/-- The environments are the same, and every declaration is still there. -/
structure Extends (r r' : Registry) : Prop where
  labels : r'.envs.map Environment.label = r.envs.map Environment.label
  classes : ∀ ref, r.HasClass ref → r'.HasClass ref
  entities : ∀ ref, r.HasEntity ref → r'.HasEntity ref
  enums : ∀ ref, r.HasEnum ref → r'.HasEnum ref

theorem Extends.refl (r : Registry) : r.Extends r :=
  ⟨rfl, fun _ h => h, fun _ h => h, fun _ h => h⟩

theorem Extends.trans {r r' r'' : Registry} (h : r.Extends r') (h' : r'.Extends r'') :
    r.Extends r'' :=
  ⟨h'.labels.trans h.labels, fun ref hr => h'.classes ref (h.classes ref hr),
    fun ref hr => h'.entities ref (h.entities ref hr),
    fun ref hr => h'.enums ref (h.enums ref hr)⟩

/-- Every environment is still there. -/
theorem Extends.envs {r r' : Registry} (h : r.Extends r') (id : EnvId)
    (hr : (r.get? id).isSome) : (r'.get? id).isSome := by
  have hlength : r'.envs.length = r.envs.length := by simpa using congrArg List.length h.labels
  unfold get? at hr ⊢
  cases hi : id.userIndex? with
  | none => simp [hi] at hr
  | some i =>
    rw [hi] at hr
    have hlt : i < r.envs.length := by simpa using hr
    simpa [hlength] using hlt

/-- A name that is found is found again. -/
theorem Extends.lookup? {r r' : Registry} (h : r.Extends r') (name : String) :
    r'.lookup? name = r.lookup? name := by
  have hfind (l : List Environment) : (l.find? (·.name == name)).map (·.id) =
      ((l.map Environment.label).find? (·.2 == name)).map (·.1) := by
    rw [List.find?_map, Option.map_map]
    rfl
  unfold Registry.lookup?
  rw [hfind, hfind, h.labels]

/-- Environments keep their names. -/
theorem Extends.nameOf {r r' : Registry} (h : r.Extends r') (id : EnvId) :
    r'.nameOf id = r.nameOf id := by
  have hlabel (i : Nat) : (r'.envs[i]?).map Environment.label = (r.envs[i]?).map Environment.label := by
    rw [← List.getElem?_map, h.labels, List.getElem?_map]
  unfold Registry.nameOf Registry.get?
  cases id.library? with
  | some library => rfl
  | none =>
    cases id.userIndex? with
    | none => rfl
    | some i =>
      have hi := hlabel i
      cases he : r.envs[i]? <;> cases he' : r'.envs[i]? <;> simp_all [Environment.label]

/-- The name of the environment or library leads back to it. -/
def Named (r : Registry) (target : EnvId) : Prop := r.lookup? (r.nameOf target) = some target

theorem Extends.named {r r' : Registry} (h : r.Extends r') {target : EnvId}
    (ht : r.Named target) : r'.Named target := by
  unfold Named
  rw [h.nameOf, h.lookup?]
  exact ht

theorem Extends.has {r r' : Registry} (h : r.Extends r') {ref : DeclRef} {kind : NamedKind}
    (hr : r.Has ref kind) : r'.Has ref kind := by
  cases kind with
  | classDecl => exact h.classes ref hr
  | entityDecl => exact h.entities ref hr

end Registry

/-! ## Declared types -/

namespace Ty

mutual
/-- Every class, entity and enum in the type is declared. -/
def Declared (r : Registry) : Ty → Prop
  | .named env name kind => r.Has ⟨env, name⟩ kind
  | .enum env name => r.HasEnum ⟨env, name⟩
  | .function params returns _ => AllDeclared r params ∧ AllDeclared r returns
  | .container _ elem => elem.Declared r
  | .variadic elem => elem.Declared r
  | _ => True

/-- Every type of the list is declared. -/
def AllDeclared (r : Registry) : List Ty → Prop
  | [] => True
  | ty :: rest => ty.Declared r ∧ AllDeclared r rest
end

variable {r r' : Registry}

theorem allDeclared_iff (tys : List Ty) : AllDeclared r tys ↔ ∀ ty ∈ tys, ty.Declared r := by
  induction tys with
  | nil => simp [AllDeclared]
  | cons ty rest ih => simp [AllDeclared, ih]

mutual
theorem declared_mono (h : r.Extends r') : (ty : Ty) → ty.Declared r → ty.Declared r'
  | .named _ _ _, hty => h.has hty
  | .enum _ _, hty => h.enums _ hty
  | .function params returns _, hty =>
    ⟨allDeclared_mono h params hty.1, allDeclared_mono h returns hty.2⟩
  | .container _ elem, hty => declared_mono h elem hty
  | .variadic elem, hty => declared_mono h elem hty
  | .basic _, _ | .fixed _, _ | .generic _, _ | .rawEntity, _ | .object, _ | .invalid, _ => trivial

theorem allDeclared_mono (h : r.Extends r') : (tys : List Ty) → AllDeclared r tys →
    AllDeclared r' tys
  | [], _ => trivial
  | ty :: rest, htys => ⟨declared_mono h ty htys.1, allDeclared_mono h rest htys.2⟩
end

theorem Declared.mono (h : r.Extends r') {ty : Ty} (hty : ty.Declared r) : ty.Declared r' :=
  declared_mono h ty hty

theorem AllDeclared.mono (h : r.Extends r') {tys : List Ty} (htys : AllDeclared r tys) :
    AllDeclared r' tys :=
  allDeclared_mono h tys htys

theorem declared_elemOf? {kind : ContainerKind} {ty elem : Ty} (h : ty.Declared r)
    (he : ty.elemOf? kind = some elem) : elem.Declared r := by
  cases ty with
  | container k e =>
    simp only [elemOf?, Option.ite_none_right_eq_some, Option.some.injEq] at he
    obtain ⟨-, rfl⟩ := he
    exact h
  | _ => cases he

end Ty

/-! ## Declared values -/

/-- Every type of the signature is declared. -/
structure Signature.Declared (r : Registry) (s : Signature) : Prop where
  params : Ty.AllDeclared r s.params
  returns : Ty.AllDeclared r s.returns

theorem Signature.Declared.mono {r r' : Registry} (h : r.Extends r') {s : Signature}
    (hs : s.Declared r) : s.Declared r' :=
  ⟨.mono h hs.params, .mono h hs.returns⟩

theorem Signature.declared_withOwner {r : Registry} {s : Signature} (h : s.Declared r)
    (owner : DeclRef) (kind : NamedKind) : (s.withOwner owner kind).Declared r :=
  ⟨h.params, h.returns⟩

namespace Value

mutual
/-- Every class, entity and enum in the value is declared. -/
def Declared (r : Registry) : Value → Prop
  | .function signature => signature.Declared r
  | .list elem => elem.Declared r
  | .map elem => elem.Declared r
  | .classObject ref => r.HasClass ref
  | .entityObject ref => r.HasEntity ref
  | .enumType ref => r.HasEnum ref
  | .enumField ref => r.HasEnum ref
  | .tuple values => AllDeclared r values
  | _ => True

/-- Every value of the list is declared. -/
def AllDeclared (r : Registry) : List Value → Prop
  | [] => True
  | value :: rest => value.Declared r ∧ AllDeclared r rest
end

variable {r r' : Registry}

theorem allDeclared_iff (values : List Value) :
    AllDeclared r values ↔ ∀ v ∈ values, v.Declared r := by
  induction values with
  | nil => simp [AllDeclared]
  | cons value rest ih => simp [AllDeclared, ih]

mutual
theorem declared_mono (h : r.Extends r') : (v : Value) → v.Declared r → v.Declared r'
  | .function _, hv => Signature.Declared.mono h hv
  | .list elem, hv | .map elem, hv => Ty.declared_mono h elem hv
  | .classObject _, hv => h.classes _ hv
  | .entityObject _, hv => h.entities _ hv
  | .enumType _, hv | .enumField _, hv => h.enums _ hv
  | .tuple values, hv => allDeclared_mono h values hv
  | .number _, _ | .fixed _, _ | .bool, _ | .text, _ | .rawEntity, _ | .generic _, _
  | .invalid, _ | .unknown, _ => trivial

theorem allDeclared_mono (h : r.Extends r') : (values : List Value) → AllDeclared r values →
    AllDeclared r' values
  | [], _ => trivial
  | value :: rest, hvs => ⟨declared_mono h value hvs.1, allDeclared_mono h rest hvs.2⟩
end

theorem Declared.mono (h : r.Extends r') {v : Value} (hv : v.Declared r) : v.Declared r' :=
  declared_mono h v hv

/-- The type of a declared value is declared. -/
theorem declared_ty : (v : Value) → v.Declared r → v.ty.Declared r
  | .function _, h => ⟨h.params, h.returns⟩
  | .list _, h | .map _, h => h
  | .classObject _, h | .entityObject _, h => h
  | .enumType _, h | .enumField _, h => h
  | .tuple [], _ => trivial
  | .tuple (first :: _), h => declared_ty first h.1
  | .number _, _ | .fixed _, _ | .bool, _ | .text, _ | .rawEntity, _ | .generic _, _
  | .invalid, _ | .unknown, _ => trivial

theorem declared_single {v : Value} (h : v.Declared r) : v.single.Declared r := by
  unfold single
  split
  · trivial
  · exact h.1
  · exact h

theorem declared_of_mem_toList {v w : Value} (h : v.Declared r) (hw : w ∈ v.toList) :
    w.Declared r := by
  unfold toList at hw
  split at hw
  · exact (allDeclared_iff _).1 h w hw
  · rw [List.mem_singleton.1 hw]
    exact h

theorem declared_ofList {values : List Value} (h : ∀ v ∈ values, v.Declared r) :
    (ofList values).Declared r := by
  unfold ofList
  split
  · exact h _ (by simp)
  · exact (allDeclared_iff _).2 h

theorem declared_forgetLiteral {v : Value} (h : v.Declared r) : v.forgetLiteral.Declared r := by
  unfold forgetLiteral
  split
  · trivial
  · exact h

theorem Declared.ty {v : Value} (h : v.Declared r) : v.ty.Declared r := declared_ty v h

end Value

/-- The value of a declared type is declared. -/
theorem Ty.declared_toValue {r : Registry} {ty : Ty} (h : ty.Declared r) :
    ty.toValue.Declared r := by
  unfold Ty.toValue
  split
  case h_5 | h_6 => exact h
  case h_7 => exact h
  case h_8 => exact ⟨h.1, h.2⟩
  case h_9 | h_10 | h_11 => exact h
  all_goals trivial

theorem Literal.declared_toValue {r : Registry} (lit : Literal) : lit.toValue.Declared r := by
  unfold Literal.toValue
  split <;> trivial

/-! ## Tables -/

namespace Table

variable {α : Type} {t : Table α} {P : α → Prop}

/-- Every value of the table has a property. -/
def Forall (t : Table α) (P : α → Prop) : Prop := ∀ e ∈ t.entries, P e.2

theorem forall_empty : (empty : Table α).Forall P := nofun

theorem Forall.get? (h : t.Forall P) {name : String} {v : α} (hv : t.get? name = some v) :
    P v := by
  obtain ⟨l₁, l₂, hentries, -⟩ := List.lookup_eq_some_iff.1 hv
  exact h (name, v) (by rw [hentries]; simp)

theorem Forall.imp {Q : α → Prop} (h : t.Forall P) (himp : ∀ v, P v → Q v) : t.Forall Q :=
  fun e he => himp e.2 (h e he)

theorem Forall.modify (h : t.Forall P) (name : String) {f : α → α} (hf : ∀ v, P v → P (f v)) :
    (t.modify name f).Forall P := by
  obtain ⟨entries⟩ := t
  unfold Table.modify Forall at *
  induction entries with
  | nil => exact h
  | cons e rest ih =>
    have hrest := ih fun e he => h e (by simp [he])
    have hfirst := h e (by simp)
    unfold modifyEntries
    split
    · exact List.forall_mem_cons.2 ⟨hf _ hfirst, fun e he => h e (by simp [he])⟩
    · exact List.forall_mem_cons.2 ⟨hfirst, hrest⟩

theorem Forall.insert (h : t.Forall P) (name : String) {v : α} (hv : P v) :
    (t.insert name v).Forall P := by
  unfold Table.insert
  split
  · exact h.modify name fun _ _ => hv
  · intro e he
    rcases List.mem_append.1 he with he | he
    · exact h e he
    · rw [List.mem_singleton.1 he]
      exact hv

theorem forall_ofList {entries : List (String × α)} (h : ∀ e ∈ entries, P e.2) :
    (ofList entries).Forall P := by
  unfold ofList
  suffices ∀ t : Table α, t.Forall P →
      (entries.foldl (fun t e => t.insert e.1 e.2) t).Forall P from this .empty forall_empty
  induction entries with
  | nil => exact fun t ht => ht
  | cons e rest ih =>
    intro t ht
    exact ih (fun e he => h e (by simp [he])) _ (ht.insert e.1 (h e (by simp)))

theorem mem_of_get?_ofList {entries : List (String × α)} {name : String} {v : α}
    (h : (ofList entries).get? name = some v) : (name, v) ∈ entries := by
  unfold ofList at h
  suffices ∀ t : Table α, (entries.foldl (fun t e => t.insert e.1 e.2) t).get? name = some v →
      (name, v) ∈ entries ∨ t.get? name = some v by
    rcases this .empty h with h | h
    · exact h
    · cases h
  clear h
  induction entries with
  | nil => exact fun t ht => .inr ht
  | cons e rest ih =>
    intro t ht
    rcases ih _ ht with h | h
    · exact .inl (by simp [h])
    · rw [get?_insert] at h
      split at h
      · next heq =>
        cases h
        exact .inl (by simp [heq])
      · exact .inr h

end Table

/-! ## Generics -/

/-- Every type that is bound is declared. -/
abbrev Bindings.Declared (r : Registry) (bindings : Bindings) : Prop :=
  bindings.Forall (Ty.Declared r)

namespace Ty

variable {r : Registry} {bindings : Bindings}

mutual
theorem declared_substitute (hb : Bindings.Declared r bindings) :
    (ty : Ty) → ty.Declared r → (ty.substitute bindings).Declared r
  | .generic name, _ => by
    unfold substitute
    cases hget : bindings.get? name with
    | none => trivial
    | some ty => exact hb.get? hget
  | .container _ elem, h => declared_substitute hb elem h
  | .variadic elem, h => declared_substitute hb elem h
  | .function params returns _, h =>
    ⟨allDeclared_substitute hb params h.1, allDeclared_substitute hb returns h.2⟩
  | .named _ _ _, h | .enum _ _, h => h
  | .basic _, _ | .fixed _, _ | .rawEntity, _ | .object, _ | .invalid, _ => trivial

theorem allDeclared_substitute (hb : Bindings.Declared r bindings) :
    (tys : List Ty) → AllDeclared r tys → AllDeclared r (substituteAll bindings tys)
  | [], _ => trivial
  | ty :: rest, h => ⟨declared_substitute hb ty h.1, allDeclared_substitute hb rest h.2⟩
end

/-- What a generic stands for is a part of the argument. -/
theorem declared_infer? {generic : String} {param arg found : Ty} (harg : arg.Declared r)
    (h : param.infer? generic arg = some found) : found.Declared r := by
  -- The induction follows the two types down side by side, with the lists of functions.
  refine (infer?.mutual_induct generic
    (fun param arg => ∀ found, arg.Declared r → param.infer? generic arg = some found →
      found.Declared r)
    (fun params args => ∀ found, AllDeclared r args → inferAny? generic params args = some found →
      found.Declared r)
    ?_ ?_ ?_ ?_ ?_ ?_ ?_ ?_ ?_ ?_ ?_).1 param arg found harg h
  case refine_8 =>
    intro params returns _ params' returns' _ hparams hreturns found harg h
    simp only [infer?, Option.orElse_eq_orElse, Option.orElse_eq_or, Option.or_eq_some_iff] at h
    rcases h with h | ⟨-, h⟩
    · exact hparams found harg.1 h
    · exact hreturns found harg.2 h
  case refine_10 =>
    intro param params arg args hparam hparams found hargs h
    simp only [inferAny?, Option.orElse_eq_orElse, Option.orElse_eq_or, Option.or_eq_some_iff] at h
    rcases h with h | ⟨-, h⟩
    · exact hparam found hargs.1 h
    · exact hparams found hargs.2 h
  all_goals
    intros
    simp_all [infer?, inferAny?, Declared]

end Ty

theorem mem_of_mentioning? {params args : List Ty} {generic : String} {param arg : Ty}
    (h : mentioning? params generic args = some (param, arg)) : arg ∈ args := by
  unfold mentioning? at h
  obtain ⟨⟨arg', index⟩, hmem, h⟩ := List.exists_of_findSome?_eq_some h
  obtain ⟨param', -, h⟩ := Option.bind_eq_some_iff.1 h
  simp only [Option.ite_none_right_eq_some, Option.some.injEq, Prod.mk.injEq] at h
  obtain ⟨-, -, rfl⟩ := h
  exact (List.mem_zipIdx' hmem).2 ▸ List.getElem_mem _

theorem declared_bindFrom {r : Registry} {params args : List Ty} {bindings : Bindings}
    (hargs : ∀ arg ∈ args, arg.Declared r) (hb : Bindings.Declared r bindings)
    (generic : String) : Bindings.Declared r (bindFrom params args bindings generic) := by
  unfold bindFrom
  split
  · next param arg hm =>
    split
    · next ty hinfer =>
      exact hb.insert generic (Ty.declared_infer? (hargs arg (mem_of_mentioning? hm)) hinfer)
    · exact hb
  · exact hb

/-- The generics of a call are bound to parts of its arguments. -/
theorem declared_resolveGenerics {r : Registry} {explicit params args : List Ty}
    {declared : List String} {bindings : Bindings} (hexplicit : ∀ ty ∈ explicit, ty.Declared r)
    (hargs : ∀ arg ∈ args, arg.Declared r)
    (h : resolveGenerics explicit declared params args = .ok bindings) :
    Bindings.Declared r bindings := by
  unfold resolveGenerics at h
  split at h
  · cases h
  · cases h
    have hgiven : Bindings.Declared r (Table.ofList (declared.zip explicit)) :=
      Table.forall_ofList fun e he => hexplicit e.2 (List.of_mem_zip he).2
    generalize declared.drop explicit.length = rest
    generalize Table.ofList (declared.zip explicit) = given at hgiven
    induction rest generalizing given with
    | nil => exact hgiven
    | cons generic rest ih => exact ih _ (declared_bindFrom hargs hgiven generic)

theorem declared_fillUnbound {r : Registry} {bindings : Bindings} (declared : List String)
    (h : Bindings.Declared r bindings) :
    Bindings.Declared r (fillUnbound declared bindings).2 := by
  induction declared generalizing bindings with
  | nil => exact h
  | cons name rest ih =>
    unfold fillUnbound
    split
    · exact ih h
    · exact ih (h.insert name (by trivial))

/-! ## Libraries -/

namespace Library

/-- The enums that the functions of the engine mention. -/
theorem isSome_enum?_pewpew : ∀ name ∈ ["EntityType", "AsteroidSize", "MothershipType",
    "WeaponType"], (Library.pewpew.enum? name).isSome := by
  decide +kernel

theorem declared_functions {r : Registry} (l : Library) : ∀ e ∈ l.functions, e.2.Declared r := by
  have hengine (name : String) (h : name ∈ ["EntityType", "AsteroidSize", "MothershipType",
      "WeaponType"]) : (engineEnum name).Declared r := isSome_enum?_pewpew name h
  suffices ∀ e ∈ l.functions, Ty.AllDeclared r e.2.params ∧ Ty.AllDeclared r e.2.returns from
    fun e he => ⟨(this e he).1, (this e he).2⟩
  cases l <;> simp [functions, builtinFunctions, pewpewFunctions, fmathFunctions, mathFunctions,
    stringFunctions, tableFunctions, fn, fnT, Ty.AllDeclared, Ty.Declared, hengine]

/-- What a library offers as a name is a number that is not known, or one of its functions. -/
theorem binding_cases {l : Library} {name : String} {v : Variable}
    (h : l.binding? name = some v) : (∃ name, v = (member name (.number none)).2) ∨
      ∃ f ∈ l.functions, v = (member f.1 (.function f.2)).2 := by
  have hall : l.contents.bindings.Forall fun v => (∃ name, v = (member name (.number none)).2) ∨
      ∃ f ∈ l.functions, v = (member f.1 (.function f.2)).2 := by
    refine Table.forall_ofList fun e he => ?_
    rcases List.mem_append.1 he with he | he
    · obtain ⟨name, -, rfl⟩ := List.mem_map.1 he
      exact .inl ⟨name, rfl⟩
    · obtain ⟨f, hf, rfl⟩ := List.mem_map.1 he
      exact .inr ⟨f, hf, rfl⟩
  exact hall.get? h

/-- Everything that a library offers as a name is a declared constant without a literal. -/
theorem declared_of_binding? {r : Registry} {l : Library} {name : String} {v : Variable}
    (h : l.binding? name = some v) : v.value.Declared r ∧ v.isConst = true ∧ v.constant = none := by
  rcases binding_cases h with ⟨_, rfl⟩ | ⟨f, hf, rfl⟩
  · exact ⟨trivial, rfl, rfl⟩
  · exact ⟨declared_functions l f hf, rfl, rfl⟩

theorem hasEnum_of_enum? {r : Registry} {l : Library} {name : String} {info : EnumInfo}
    (h : l.enum? name = some info) : r.HasEnum ⟨.ofLibrary l, name⟩ := by
  rw [Registry.HasEnum, Registry.enum?]
  simp [h]

/-- The reference of a library enum is its own name there. -/
theorem ty_of_enum? {l : Library} {name : String} {info : EnumInfo}
    (h : l.enum? name = some info) : info.ty = ⟨.ofLibrary l, name⟩ := by
  obtain ⟨e, -, he⟩ := List.mem_map.1 (Table.mem_of_get?_ofList h)
  cases he
  rfl

theorem declared_alias? {r : Registry} {l : Library} {name : String} {info : AliasInfo}
    (h : l.alias? name = some info) : info.ty.Declared r := by
  have hall : l.contents.aliases.Forall fun info => info.ty.Declared r := by
    refine Table.forall_ofList fun e he => ?_
    obtain ⟨a, ha, rfl⟩ := List.mem_map.1 he
    revert a
    cases l <;> simp [aliases, Ty.Declared]
  exact hall.get? h

theorem declared_type? {r : Registry} {l : Library} {name : String} {ty : Ty}
    (h : l.type? name = some ty) : ty.Declared r := by
  unfold type? at h
  cases henum : l.enum? name with
  | some info =>
    simp only [henum, Option.map_some, Option.orElse_eq_orElse, Option.orElse_some,
      Option.some.injEq] at h
    subst h
    exact hasEnum_of_enum? henum
  | none =>
    simp only [henum, Option.map_none, Option.orElse_eq_orElse, Option.orElse_none,
      Option.map_eq_some_iff] at h
    obtain ⟨info, halias, rfl⟩ := h
    exact declared_alias? halias

end Library

end HybroidSema
