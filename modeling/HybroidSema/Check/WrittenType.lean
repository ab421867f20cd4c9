import HybroidSema.Check.Link

/-!
# Written types

Resolution of a written type. A qualified name is looked up in one environment. An unqualified
name is a generic parameter in scope, a declaration of this environment, a built-in alias, or a
public type of an imported environment; if two imported environments declare it, the first one
counts and the ambiguity is reported. What resolves to nothing becomes the error sentinel.
-/

namespace HybroidSema.Check

/-- The type that a name stands for in an environment or library. -/
def declaredIn? (target : EnvId) (name : String) : Check (Option DeclaredType) := do
  match target.library? with
  | some library => return (library.type? name).map (⟨·, true⟩)
  | none => return ((← registry).get? target).bind (·.declaredType? name)

/-- A type of a named environment. -/
def qualifiedType (env name : Ident) : Check Ty := do
  match (← registry).lookup? env.name with
  | none =>
    report (.invalidEnvironment env.name) env.span
    return .invalid
  | some target =>
    if ← link target env.span then
      match ← declaredIn? target name.name with
      | some declared =>
        if !declared.isPub && target != (← ownId) then
          report (.foreignLocalVariableAccess name.name env.name) name.span
        return declared.ty
      | none =>
        report (.invalidEnvironmentAccess env.name name.name) name.span
        return .invalid
    else return .invalid

/-- The first of the imported environments with a public type of the name, walking each import
that was not started. A second one is reported. -/
def importedType? (name : Ident) : (imports : List EnvId) → (found : Option (EnvId × Ty)) →
    Check (Option Ty)
  | [], found => return found.map Prod.snd
  | target :: rest, found => do
    if !(← isStarted target) then ensureWalked target name.span
    let declared := (← declaredIn? target name.name).filter (·.isPub)
    match declared, found with
    | none, _ => importedType? name rest found
    | some declared, none => importedType? name rest (some (target, declared.ty))
    | some _, some (first, ty) =>
      let registry ← registry
      report
        (.environmentAccessAmbiguity name.name (registry.nameOf first) (registry.nameOf target))
        name.span
      return some ty

/-- The type of an unqualified name that is no keyword. -/
def namedType (name : Ident) : Check Ty := do
  if (← scopes).hasGeneric name.name then return .generic name.name
  let env ← environment
  match env.declaredType? name.name with
  | some declared => return declared.ty
  | none =>
    match Library.builtin.alias? name.name with
    | some info => return info.ty
    | none =>
      match ← importedType? name env.imports none with
      | some ty => return ty
      | none =>
        report (.invalidType name.name) name.span
        return .invalid

/-- The types that a keyword stands for on its own. -/
def keywordType? : String → Option Ty
  | "number" => some .number
  | "text" => some .text
  | "bool" => some .bool
  | "fixed" => some (.fixed .fixed)
  | "radian" => some (.fixed .radian)
  | "degree" => some (.fixed .degree)
  | "entity" => some .rawEntity
  | _ => none

/-- The containers by keyword. -/
def containerKeyword? : String → Option ContainerKind
  | "list" => some .list
  | "map" => some .map
  | _ => none

mutual
/-- Resolve a written type. -/
def resolveType (written : TypeExpr) : Check Ty :=
  match written with
  | ⟨env, name, wrapped, params, returns, isVariadic, span⟩ => do
    let ty ← match env, containerKeyword? name.name with
      | some env, _ => qualifiedType env name
      | none, some kind =>
        match wrapped with
        | [elem] => do pure (.container kind (← resolveType elem))
        | _ => do
          report (.invalidListOrMapWrappedType wrapped.length) span
          pure .invalid
      | none, none => do
        if !wrapped.isEmpty then report (.tooManyElementsGiven name.name) span
        match keywordType? name.name with
        | some ty => pure ty
        | none =>
          if name.name == "fn" then
            let params ← resolveTypes params
            let returns ← resolveTypes returns
            pure (.fn params returns)
          else namedType name
    return if isVariadic then .variadic ty else ty
  termination_by structural written

/-- Resolve written types in order. -/
def resolveTypes (written : List TypeExpr) : Check (List Ty) :=
  match written with
  | [] => return []
  | first :: rest => do
    let ty ← resolveType first
    let tys ← resolveTypes rest
    return ty :: tys
  termination_by structural written
end

/-- Resolve an optional written type. -/
def resolveType? (written : Option TypeExpr) : Check (Option Ty) := do
  match written with
  | some written => return some (← resolveType written)
  | none => return none

/-- The distinct names of generic parameters, after the ones already seen. A repeated one is
reported and left out. -/
def distinctGenerics : (generics : List Ident) → (seen : List String) → Check (List String)
  | [], seen => return seen
  | generic :: rest, seen => do
    if seen.contains generic.name then
      report (.duplicateGenericParameter generic.name) generic.span
      distinctGenerics rest seen
    else distinctGenerics rest (seen ++ [generic.name])

/-- Resolve a signature with its generic parameters in scope. -/
def resolveSignature (generics : List Ident) (params : List Param) (returns : List TypeExpr) :
    Check Signature := do
  let names ← distinctGenerics generics []
  let ((params, returns), _) ← inScope (·.pushFunction { generics := names }) do
    let params ← resolveTypes (params.map (·.ty))
    let returns ← resolveTypes returns
    return (params, returns)
  return { generics := names, params := params, returns := returns }

end HybroidSema.Check
