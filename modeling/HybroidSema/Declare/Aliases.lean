import HybroidSema.Check.WrittenType
import HybroidSema.Declare.Names

/-!
# Resolving aliases

Aliases may refer to each other in any order. Each one is resolved after the aliases that its
target mentions, starting from the first declaration in the file. An alias that is met again while
its own target is being followed is part of a cycle: it is reported, and stays the error sentinel.
-/

namespace HybroidSema.Declare

open Check

/-! ## What an alias mentions -/

mutual
/-- The unqualified names in a written type, outermost first. -/
def localNames (written : TypeExpr) : List String :=
  match written with
  | ⟨env, name, wrapped, params, returns, _, _⟩ =>
    let inner := localNamesAll wrapped ++ localNamesAll params ++ localNamesAll returns
    if env.isNone then name.name :: inner else inner
  termination_by structural written

/-- The unqualified names in several written types. -/
def localNamesAll (written : List TypeExpr) : List String :=
  match written with
  | [] => []
  | first :: rest => localNames first ++ localNamesAll rest
  termination_by structural written
end

/-! ## Resolution -/

/-- Give an alias of the own environment its type. -/
def setAlias (name : String) (ty : Ty) : Check Unit :=
  modifyEnvironment fun env =>
    { env with aliases := env.aliases.modify name fun info => { info with ty := ty } }

/-- Resolve an alias after the aliases that it mentions. `visiting` are the aliases whose targets
are being followed, and the result are the aliases that are settled. Every step down adds a name
to `visiting`, so `depth` need not exceed the number of aliases. -/
def resolveAlias (decls : Table AliasDecl) : (depth : Nat) → (visiting : List String) →
    (name : String) → (settled : List String) → Check (List String)
  | depth, visiting, name, settled =>
    if settled.contains name then return settled
    else
      match decls.get? name with
      | none => return settled
      | some decl =>
        if visiting.contains name then do
          report (.invalidType name) decl.name.span
          return name :: settled
        else
          match depth with
          | 0 => return settled
          | depth + 1 => do
            let settled ← (localNames decl.ty).foldlM
              (fun settled mentioned =>
                resolveAlias decls depth (name :: visiting) mentioned settled) settled
            if settled.contains name then return settled
            let ty ← resolveType decl.ty
            setAlias name ty
            return name :: settled

/-- The alias that a statement declares, if it declares one. -/
def alias? : Stmt → Option AliasDecl
  | .aliasDecl decl => some decl
  | _ => none

/-- The alias declarations that have their names. -/
def ownAliases : List AliasDecl → Check (List AliasDecl)
  | [] => return []
  | decl :: rest => do
    let owns ← ownsName decl.name
    let others ← ownAliases rest
    return if owns then decl :: others else others

/-- Resolve the aliases of a program in source order. -/
def resolveAliases (program : Program) : Check Unit := do
  let owned ← ownAliases (program.filterMap alias?)
  let decls := Table.ofList (owned.map fun decl => (decl.name.name, decl))
  let order := Span.sortBy AliasDecl.span decls.values
  let _ ← order.foldlM
    (fun settled decl => resolveAlias decls decls.size [] decl.name.name settled) []
  return

end HybroidSema.Declare
