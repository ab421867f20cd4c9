import HybroidSema.Session.Basic
import HybroidSema.Library.Contents

/-!
# The checking of one environment

A `Check` reads and changes the session on behalf of one environment. It collects the alerts of
that environment, the entity narrowings of the condition that is being checked, and the first
error that ends the build. How another environment is walked is given from outside.

* `Check.report`, `Check.alert` and `Check.fail`: problems.
* `Check.environment`, `Check.scopes` and the functions that change them: the own environment.
  They fail if the handle is no user environment.
* `Check.inScope`: a computation inside a scope that is opened before it and closed after it.
-/

namespace HybroidSema

/-- An entity test that binds a name: the name stands for the entity where the test holds, or
where it does not if it is negated. -/
structure Narrowing where
  name : Ident
  entity : DeclRef
  negated : Bool
deriving Repr

namespace Check

/-- The environment that is checked, and how another one is walked. -/
structure Context where
  env : EnvId
  walk : EnvId → Session → Except CompileError (Option CompileError × Session)

/-- What a check reads and changes. -/
structure State where
  session : Session
  narrowings : List Narrowing := []
  alerts : Diagnostics := {}
  fatal : Option CompileError := none

end Check

/-- A step of the checking of one environment. -/
abbrev Check := ReaderT Check.Context (StateT Check.State (Except CompileError))

namespace Check

/-! ## Problems -/

/-- Report an alert. -/
def alert (a : Alert) : Check Unit :=
  modify fun s => { s with alerts := s.alerts.push a }

/-- Report a problem at one position. -/
def report (kind : AlertKind) (span : Span) : Check Unit :=
  alert { kind := kind, span := span }

/-- Record an error that ends the build. The first one counts. -/
def fail (error : CompileError) : Check Unit :=
  modify fun s => { s with fatal := s.fatal <|> some error }

/-! ## The session and the own environment -/

/-- The registry of the session. -/
def registry : Check Registry := do
  return (← get).session.registry

/-- Change the registry of the session. -/
def modifyRegistry (f : Registry → Registry) : Check Unit :=
  modify fun s => { s with session := { s.session with registry := f s.session.registry } }

/-- The handle of the own environment. -/
def ownId : Check EnvId := do
  return (← read).env

/-- The own environment. -/
def environment : Check Environment := do
  let id ← ownId
  let registry ← registry
  liftM (registry.get id)

/-- Change the own environment. -/
def modifyEnvironment (f : Environment → Environment) : Check Unit := do
  let id ← ownId
  let _ ← environment
  modifyRegistry (·.modify id f)

/-- The scopes of the own environment. -/
def scopes : Check ScopeStack := do
  return (← environment).scopes

/-- Change the scopes of the own environment. -/
def modifyScopes (f : ScopeStack → ScopeStack) : Check Unit :=
  modifyEnvironment fun env => { env with scopes := f env.scopes }

/-- A declared class. -/
def class? (ref : DeclRef) : Check (Option ClassInfo) := do
  let registry ← registry
  return (registry.get? ref.env).bind (·.classes.get? ref.name)

/-- A declared entity. -/
def entity? (ref : DeclRef) : Check (Option EntityInfo) := do
  let registry ← registry
  return (registry.get? ref.env).bind (·.entities.get? ref.name)

/-- The members of a declared class or entity. -/
def members? (ref : DeclRef) (kind : NamedKind) : Check (Option Members) := do
  let registry ← registry
  return (registry.get? ref.env).bind (·.members? kind ref.name)

/-- An enum of an environment or library. -/
def enum? (ref : DeclRef) : Check (Option EnumInfo) := do
  match ref.env.library? with
  | some library => return library.enum? ref.name
  | none =>
    let registry ← registry
    return (registry.get? ref.env).bind (·.enums.get? ref.name)

/-! ## Scopes and variables -/

/-- Close the innermost scope and hand it back. -/
def closeScope : Check (Option Scope) := do
  match (← scopes).close? with
  | some (scope, below) =>
    modifyScopes fun _ => below
    return some scope
  | none => return none

/-- Run a check inside a scope, and hand back the closed scope with its result. -/
def inScope {α : Type} (enter : ScopeStack → ScopeStack) (body : Check α) :
    Check (α × Option Scope) := do
  modifyScopes enter
  let result ← body
  let closed ← closeScope
  return (result, closed)

/-- Report a refused scope operation. -/
def reportScopeError (error : ScopeError) (span : Span) (what : String) : Check Unit :=
  match error with
  | .alreadyDeclared name first =>
    alert { kind := .redeclaration name what, span := span, more := [first] }
  | .constAssignment name => report (.constAssignment name) span
  | .undeclared name => report (.undeclaredVariableAccess name) span

/-- Bind a variable in the innermost scope, or report that its name is taken there. -/
def declare (binding : Variable) (what : String) : Check Unit := do
  match (← scopes).declare binding with
  | .ok scopes => modifyScopes fun _ => scopes
  | .error error => reportScopeError error binding.span what

/-- Take over the narrowings that were collected so far. -/
def takeNarrowings : Check (List Narrowing) := do
  let narrowings := (← get).narrowings
  modify fun s => { s with narrowings := [] }
  return narrowings

/-- Forget the narrowings that were collected so far. -/
def clearNarrowings : Check Unit :=
  modify fun s => { s with narrowings := [] }

end Check

end HybroidSema
