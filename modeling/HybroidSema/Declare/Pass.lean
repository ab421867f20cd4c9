import HybroidSema.Declare.Aliases
import HybroidSema.Declare.Members

/-!
# The declarations of an environment

Before any body is checked, the top level of a program is registered in steps, so that code can
refer to anything declared anywhere in the file:

1. root `use` statements record imports;
2. classes, entities, enums and aliases claim their names;
3. aliases are resolved;
4. members, constructors and lifecycle functions are registered;
5. top-level functions are bound as constants of the root scope;
6. imported environments are walked, unless one is waiting for this one.

Names are claimed before any type is resolved, so a field may have a class that is declared
further down.
-/

namespace HybroidSema.Declare

open Check

/-- How many types and functions were registered. -/
structure Counts where
  types : Nat := 0
  functions : Nat := 0
deriving DecidableEq, Repr, Inhabited

/-- Register the members of a class or entity that a statement declares. -/
def registerMembers : Stmt → Check Nat
  | .classDecl decl => registerClass decl
  | .entityDecl decl => registerEntity decl
  | _ => return 0

/-- Bind a top-level function as a constant of the root scope. -/
def registerFunction : Stmt → Check Nat
  | .function decl => do
    let signature ← resolveSignature decl.generics decl.params decl.returns
    let binding : Variable :=
      { name := decl.name.name
        value := .function signature
        span := decl.name.span
        isPub := decl.isPub
        isConst := true }
    match (← scopes).declareRoot binding with
    | .ok scopes =>
      modifyScopes fun _ => scopes
      return 1
    | .error error =>
      reportScopeError error decl.name.span "function"
      return 0
  | _ => return 0

/-- Apply a step to every statement in order and add up the counts. -/
def countEach (step : Stmt → Check Nat) : Program → Check Nat
  | [] => return 0
  | stmt :: rest => do
    let first ← step stmt
    let others ← countEach step rest
    return first + others

/-- Register everything that a program declares at the top level. -/
def program (program : Program) : Check Counts := do
  importAll program
  let types ← countEach claimType program
  resolveAliases program
  let members ← countEach registerMembers program
  let functions ← countEach registerFunction program
  walkImports program
  return { types := types, functions := members + functions }

end HybroidSema.Declare
