import HybroidSema.Check.Link

/-!
# Names

What a name stands for, and the node that takes its place in the resolved tree:

* a member of the enclosing class or entity becomes a field of `self`;
* a constant with a literal becomes a copy of the literal;
* a name of the implicit library becomes a built-in name;
* a name of an imported environment or library becomes a qualified name.

An unqualified name is looked up in the scopes, the implicit library, the variables of the
imports in order, and last among enums.
-/

namespace HybroidSema.Check

/-! ## Look-ups in one environment -/

/-- A variable that an environment or library offers to others. -/
def foreignVariable? (target : EnvId) (name : String) : Check (Option Variable) := do
  match target.library? with
  | some library => return library.binding? name
  | none => return ((← registry).get? target).bind (·.rootVariable? name)

/-- A literal at a new position. -/
def inlineLiteral (lit : Literal) (span : Span) : Expr := .literal { lit with span := span }

/-! ## Unqualified names -/

/-- What a member of the enclosing class or entity is if `self` is left out. -/
def selfField (id : Ident) (owner : DeclRef) (kind : NamedKind) (value : Value) :
    Check (Expr × Value) := do
  if !(← scopes).allows { selfRef := true } then
    report .invalidUseOfSelf id.span
    return (.ident id, .invalid)
  let members ← members? owner kind
  let index := (members.bind (·.field? id.name)).map Prod.fst
  let isMethod := members.any (·.hasMethod id.name)
  let value := match value with
    | .function signature =>
      if isMethod then .function (signature.withOwner owner kind) else .function signature
    | value => value
  return (.field (.self (some kind) id.span) id index id.span, value)

/-- A name bound in the scope at a position. It counts as used. -/
def scopedName (id : Ident) (position : Nat) : Check (Expr × Value) := do
  let stack ← scopes
  match stack.binding? position id.name with
  | none => return (.ident id, .invalid)
  | some binding =>
    modifyScopes (·.modifyVariable position id.name fun v => { v with isUsed := true })
    match binding.constant, (stack.get? position).bind (·.tag.container?) with
    | some lit, _ => return (inlineLiteral lit id.span, binding.value)
    | none, some (owner, kind) => selfField id owner kind binding.value
    | none, none => return (.ident id, binding.value)

/-- The first import that has a variable of the name. A private one is reported. -/
def importedVariable? (id : Ident) : (imports : List EnvId) → Check (Option (EnvId × Variable))
  | [] => return none
  | target :: rest => do
    match ← foreignVariable? target id.name with
    | none => importedVariable? id rest
    | some binding =>
      if !binding.isPub then
        report (.foreignLocalVariableAccess id.name ((← registry).nameOf target)) id.span
      return some (target, binding)

/-- The first import that has a public enum of the name. -/
def importedEnum? (name : String) : (imports : List EnvId) → Check (Option (EnvId × EnumInfo))
  | [] => return none
  | target :: rest => do
    match (← enum? ⟨target, name⟩).filter (·.isPub) with
    | none => importedEnum? name rest
    | some info => return some (target, info)

/-- The qualified name that takes the place of an unqualified one. -/
def qualify (target : EnvId) (id : Ident) : Check Expr := do
  return .envAccess ⟨(← registry).nameOf target, id.span⟩ id id.span

/-- An enum of this environment or of an import, or nothing at all. -/
def enumName (id : Ident) : Check (Expr × Value) := do
  let env ← environment
  match env.enums.get? id.name with
  | some info => return (.ident id, .enumType info.ty)
  | none =>
    match ← importedEnum? id.name env.imports with
    | some (target, info) =>
      if target == (← ownId) then return (.ident id, .enumType info.ty)
      return (← qualify target id, .enumType info.ty)
    | none =>
      report (.undeclaredVariableAccess id.name) id.span
      return (.ident id, .invalid)

/-- An unqualified name: the node that takes its place, and its value. -/
def identifier (id : Ident) : Check (Expr × Value) := do
  match (← scopes).resolve? id.name with
  | some position => scopedName id position
  | none =>
    match Library.builtin.binding? id.name with
    | some binding => return (.builtin id, binding.value)
    | none =>
      match ← importedVariable? id (← environment).imports with
      | some (target, binding) =>
        match binding.constant with
        | some lit => return (inlineLiteral lit id.span, binding.value)
        | none => return (← qualify target id, binding.value)
      | none => enumName id

/-- The value of a name of the implicit library. -/
def builtinValue (id : Ident) : Check Value := do
  match Library.builtin.binding? id.name with
  | some binding => return binding.value
  | none =>
    report (.undeclaredVariableAccess id.name) id.span
    return .invalid

/-! ## Qualified names -/

/-- What a qualified name stands for: its value, whether it is public, and the literal that
replaces it. -/
structure Qualified where
  value : Value
  isPub : Bool
  constant : Option Literal

/-- A variable or an enum of an environment; a variable counts first. -/
def qualified? (target : EnvId) (name : String) : Check (Option Qualified) := do
  match ← foreignVariable? target name with
  | some binding => return some ⟨binding.value, binding.isPub, binding.constant⟩
  | none =>
    match ← enum? ⟨target, name⟩ with
    | some info => return some ⟨.enumType info.ty, info.isPub, none⟩
    | none => return none

/-- A qualified name: the node that takes its place, and its value. -/
def qualifiedName (env name : Ident) (span : Span) : Check (Expr × Value) := do
  let kept : Expr := .envAccess env name span
  match (← registry).lookup? env.name with
  | none =>
    report (.invalidEnvironment env.name) env.span
    return (kept, .invalid)
  | some target =>
    if !(← link target span) then return (kept, .invalid)
    match ← qualified? target name.name with
    | none =>
      report (.invalidEnvironmentAccess env.name name.name) name.span
      return (kept, .invalid)
    | some found =>
      if !found.isPub && target != (← ownId) then
        report (.foreignLocalVariableAccess name.name env.name) name.span
      match found.constant with
      | some lit => return (inlineLiteral lit span, found.value)
      | none => return (kept, found.value)

/-! ## `self` -/

/-- The instance that `self` is, with the kind of its owner. -/
def selfValue (span : Span) : Check (Option NamedKind × Value) := do
  if !(← scopes).allows { selfRef := true } then
    report .invalidUseOfSelf span
    return (none, .invalid)
  match (← scopes).container? with
  | some (ref, .classDecl) => return (some .classDecl, .classObject ref)
  | some (ref, .entityDecl) => return (some .entityDecl, .entityObject ref)
  | none =>
    report .invalidUseOfSelf span
    return (none, .invalid)

end HybroidSema.Check
