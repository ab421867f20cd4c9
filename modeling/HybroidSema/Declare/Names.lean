import HybroidSema.Check.Basic

/-!
# Claiming type names

The classes, entities, enums and aliases of an environment share one space of names. The first
declaration of a name gets it, and every later one is reported with the position of the first.

A claimed class or entity has no members yet, and a claimed alias stands for the error sentinel
until it is resolved. Enums are complete at once.
-/

namespace HybroidSema.Declare

open Check

/-- Claim a type name, or report that it is taken. -/
def claim (name : Ident) (what : String) : Check Bool := do
  match (← environment).declaredSpan? name.name with
  | none => return true
  | some first =>
    alert { kind := .redeclaration name.name what, span := name.span, more := [first] }
    return false

/-- Whether the declaration of a name at a position is the one that has the name. -/
def ownsName (name : Ident) : Check Bool := do
  return (← environment).declaredSpan? name.name == some name.span

/-- The reference to a declaration of the own environment. -/
def ownRef (name : Ident) : Check DeclRef := do
  return ⟨← ownId, name.name⟩

/-- The distinct fields of an enum, after the ones already seen. A repeated one is reported and
left out. -/
def distinctFields : (fields : List Ident) → (seen : List String) → Check (List String)
  | [], seen => return seen
  | field :: rest, seen => do
    if seen.contains field.name then
      report (.duplicateElement field.name) field.span
      distinctFields rest seen
    else distinctFields rest (seen ++ [field.name])

/-- Claim the name of a class. -/
def claimClass (decl : ClassDecl) : Check Nat := do
  if ← claim decl.name "class" then
    let ref ← ownRef decl.name
    let info : ClassInfo := { ty := ref, span := decl.name.span, isPub := decl.isPub }
    modifyEnvironment fun env => { env with classes := env.classes.insert decl.name.name info }
    return 1
  return 0

/-- Claim the name of an entity. -/
def claimEntity (decl : EntityDecl) : Check Nat := do
  if ← claim decl.name "entity" then
    let ref ← ownRef decl.name
    let info : EntityInfo := { ty := ref, span := decl.name.span, isPub := decl.isPub }
    modifyEnvironment fun env => { env with entities := env.entities.insert decl.name.name info }
    return 1
  return 0

/-- Claim the name of an enum and register its fields. -/
def claimEnum (decl : EnumDecl) : Check Nat := do
  if ← claim decl.name "enum" then
    if decl.fields.isEmpty then report (.emptyEnum decl.name.name) decl.name.span
    let fields ← distinctFields decl.fields []
    let ref ← ownRef decl.name
    let info : EnumInfo := ⟨ref, decl.name.span, decl.isPub, fields⟩
    modifyEnvironment fun env => { env with enums := env.enums.insert decl.name.name info }
    return 1
  return 0

/-- Claim the name of an alias. -/
def claimAlias (decl : AliasDecl) : Check Nat := do
  if ← claim decl.name "alias" then
    let info : AliasInfo := ⟨.invalid, decl.name.span, decl.isPub⟩
    modifyEnvironment fun env => { env with aliases := env.aliases.insert decl.name.name info }
    return 1
  return 0

/-- Claim the name that a statement declares as a type, if it does. The result counts the names
that were claimed. -/
def claimType : Stmt → Check Nat
  | .classDecl decl => claimClass decl
  | .entityDecl decl => claimEntity decl
  | .enumDecl decl => claimEnum decl
  | .aliasDecl decl => claimAlias decl
  | _ => return 0

end HybroidSema.Declare
