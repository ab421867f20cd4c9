import HybroidSema.Check.Basic

/-!
# Linking environments

An environment reaches another one by a `use` statement or by a qualified name. Linking records
the requirement if the kinds of the two allow it, and then walks the target unless it was started
before. If the target already requires the requester, that is a cycle and is reported instead,
once for each pair of environments.

A root `use` only records the import. Its target is walked after everything this environment
declares is registered (`Check.walkImports`), so that two environments that import each other see
each other's declarations.
-/

namespace HybroidSema.Check

/-- Walk another environment. -/
def walkOther (target : EnvId) : Check Unit := do
  let context ← read
  let state ← get
  let (error, session) ← liftM (context.walk target state.session)
  set { state with session := session }
  match error with
  | some error => fail error
  | none => pure ()

/-- Whether an environment is no longer waiting to be walked. -/
def isStarted (target : EnvId) : Check Bool := do
  let registry ← registry
  match registry.get? target with
  | some env => return env.state != .notWalked
  | none => return true

/-- Record a requirement if the kinds of environment allow it, and tell whether they do. -/
def require (target : EnvId) (span : Span) : Check Bool := do
  match (← registry).accessError? (← ownId) target with
  | some kind =>
    report kind span
    return false
  | none =>
    modifyEnvironment (·.require target)
    return true

/-- Walk a required environment, or report the cycle if it requires this one. -/
def ensureWalked (target : EnvId) (span : Span) : Check Unit := do
  let own ← ownId
  if target.isLibrary || target == own then return
  let registry ← registry
  match registry.findCycle? own target with
  | some cycle =>
    if registry.lacksCycle own target then
      modifyRegistry (·.markCycle own target)
      report (.importCycle (cycle.map registry.nameOf)) span
  | none =>
    if !(← isStarted target) then walkOther target

/-- Make an environment available to this one, and tell whether the kinds allow it. -/
def link (target : EnvId) (span : Span) : Check Bool := do
  if target == (← ownId) then return true
  if ← require target span then
    ensureWalked target span
    return true
  return false

/-- The environment that a `use` names, other than the own one. -/
def useTarget? (stmt : UseStmt) : Check (Option EnvId) := do
  match (← registry).lookup? stmt.path.name with
  | some target => return if target == (← ownId) then none else some target
  | none =>
    report (.invalidEnvironment stmt.path.name) stmt.path.span
    return none

/-- A `use` inside a body: link and import at once. -/
def useEnvironment (stmt : UseStmt) : Check Unit := do
  match ← useTarget? stmt with
  | some target =>
    if ← link target stmt.span then modifyEnvironment (·.addImport target)
  | none => pure ()

/-- A root `use`: import, and leave the walk for later. -/
def importEnvironment (stmt : UseStmt) : Check Unit := do
  match ← useTarget? stmt with
  | some target =>
    if ← require target stmt.span then modifyEnvironment (·.addImport target)
  | none => pure ()

/-- Walk the target of a root `use`, if it was imported. -/
def walkImport (stmt : UseStmt) : Check Unit := do
  match (← registry).lookup? stmt.path.name with
  | some target =>
    if (← environment).imports.contains target then ensureWalked target stmt.span
  | none => pure ()

/-- The `use` statement that a statement is, if it is one. -/
def use? : Stmt → Option UseStmt
  | .use stmt => some stmt
  | _ => none

/-- Import the targets of the root `use` statements in order. -/
def importAll (program : Program) : Check Unit :=
  (program.filterMap use?).forM importEnvironment

/-- Walk the targets of the root `use` statements in order. -/
def walkImports (program : Program) : Check Unit :=
  (program.filterMap use?).forM walkImport

end HybroidSema.Check
