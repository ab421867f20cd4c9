import HybroidSema.Proofs.Declared
import HybroidSema.Proofs.Step

/-!
# Registries without dangling references

Everything that scopes and environments store is declared: the values of variables and fields, the
signatures of methods and lifecycle functions, the types of aliases, and what the tags of scopes
refer to. A variable that has a literal in its place is a constant.

* `Variable.Valid`, `ScopeStack.Valid`, `Environment.Valid` and `Registry.Valid`.

What the analyzer keeps is shown in `HybroidSema.Proofs.Fine`, together with plainness of values.
-/

namespace HybroidSema

variable {r r' : Registry}

/-! ## Variables and scopes -/

/-- The value is declared, and only a constant has a literal in its place. -/
structure Variable.Valid (r : Registry) (v : Variable) : Prop where
  value : v.value.Declared r
  constant : v.constant.isSome → v.isConst = true

/-- What the tag of a scope refers to is declared. -/
def ScopeTag.Valid (r : Registry) : ScopeTag → Prop
  | .classBody ref => r.HasClass ref
  | .entityBody ref => r.HasEntity ref
  | .func tag => Ty.AllDeclared r tag.returns
  | .matchExpr tag => ∀ types ∈ tag.yields, Ty.AllDeclared r types
  | _ => True

theorem ScopeTag.Valid.mono (h : r.Extends r') {tag : ScopeTag} (ht : tag.Valid r) :
    tag.Valid r' := by
  cases tag with
  | classBody ref => exact h.classes ref ht
  | entityBody ref => exact h.entities ref ht
  | func tag => exact Ty.AllDeclared.mono h ht
  | matchExpr tag => exact fun types hm => (ht types hm).mono h
  | _ => trivial

/-- The tag and the variables of a scope are valid. -/
structure Scope.Valid (r : Registry) (s : Scope) : Prop where
  tag : s.tag.Valid r
  bindings : s.bindings.Forall (Variable.Valid r)

/-- Every open scope is valid. -/
def ScopeStack.Valid (r : Registry) (s : ScopeStack) : Prop := ∀ scope ∈ s.chain, scope.Valid r

/-! ## Members, classes and entities -/

/-- The fields and methods of a class or entity are valid. -/
structure Members.Valid (r : Registry) (m : Members) : Prop where
  fields : ∀ field ∈ m.fields, field.Valid r
  methods : m.methods.Forall fun method => method.signature.Declared r

/-- A declared class with everything it stores. -/
structure ClassInfo.Valid (r : Registry) (info : ClassInfo) : Prop where
  ty : r.HasClass info.ty
  members : info.members.Valid r
  constructor : ∀ signature ∈ info.constructor, signature.Declared r

/-- A declared entity with everything it stores. -/
structure EntityInfo.Valid (r : Registry) (info : EntityInfo) : Prop where
  ty : r.HasEntity info.ty
  members : info.members.Valid r
  spawner : ∀ signature ∈ info.spawner, signature.Declared r
  destroyer : ∀ signature ∈ info.destroyer, signature.Declared r
  callbacks : ∀ callback ∈ info.callbacks, callback.2.Declared r

/-! ## Environments -/

/-- Everything that an environment stores is valid. -/
structure Environment.Valid (r : Registry) (e : Environment) : Prop where
  scopes : e.scopes.Valid r
  classes : e.classes.Forall (ClassInfo.Valid r)
  entities : e.entities.Forall (EntityInfo.Valid r)
  enums : e.enums.Forall fun info => r.HasEnum info.ty
  aliases : e.aliases.Forall fun info => info.ty.Declared r
  imports : ∀ target ∈ e.imports, r.Named target

/-- Every environment is valid and stands at the position that its handle names. -/
structure Registry.Valid (r : Registry) : Prop where
  ids : ∀ id env, r.get? id = some env → env.id = id
  envs : ∀ id env, r.get? id = some env → env.Valid r

end HybroidSema
