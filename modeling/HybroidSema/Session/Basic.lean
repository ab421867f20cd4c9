import HybroidSema.Registry
import HybroidSema.Alert.Basic

/-!
# Sessions

A `Session` owns the environments of one build with their programs and alerts. A program is
checked out of the session while it is walked, so its slot is empty for that time.

This file holds the state and the operations that do not walk anything: adding a program and
making up a fresh name. Walking is in `HybroidSema.Session.Build`.
-/

namespace HybroidSema

/-- The settings of a session. -/
structure Config where
  /-- Remove statements after a certain exit from the tree. -/
  prune : Bool := true
  /-- Let warnings fail the build. -/
  denyWarnings : Bool := false
deriving Repr, Inhabited

/-- The environments of one build. Programs and alerts are in registration order. -/
structure Session where
  config : Config := {}
  registry : Registry := {}
  programs : List (Option Program) := []
  alerts : List Diagnostics := []
  /-- How many names were made up. -/
  synthetic : Nat := 0
deriving Inhabited

namespace Session

/-- A session without programs. -/
def new (config : Config) : Session := { config := config }

/-- The name and kind under which a program is registered, with the alerts of its `env`
declaration. Without one the program is named after its path and taken for a level. -/
def header (s : Session) (path : String) (program : Program) : String × EnvKind × Diagnostics :=
  match program.envDecl? with
  | some decl =>
    let (kind, alerts) := match EnvKind.ofName? decl.kind.name with
      | some kind => (kind, Diagnostics.empty)
      | none =>
        (.level, Diagnostics.empty.report (.invalidEnvironmentType decl.kind.name) decl.kind.span)
    let alerts := match s.registry.lookup? decl.name.name with
      | some existing =>
        let otherPath := match s.registry.get? existing with
          | some env => env.path
          | none => existing.render
        alerts.report (.duplicateEnvironmentName decl.name.name otherPath) decl.name.span
      | none => alerts
    (decl.name.name, kind, alerts)
  | none =>
    let span := match program with
      | [] => .synthetic
      | stmt :: _ => stmt.span
    (path, .level, Diagnostics.empty.push
      { kind := .missingEnvironmentDeclaration
        span := span
        note := some "start the file with `env Name as Level`" })

/-- Register a program under its `env` declaration. It is registered whether or not the
declaration is usable, so that the rest of it gets checked. -/
def addProgram (s : Session) (path : String) (program : Program) : EnvId × Session :=
  let (name, kind, alerts) := s.header path program
  (s.registry.nextId,
    { s with
      registry := s.registry.register path name kind
      programs := s.programs ++ [some program]
      alerts := s.alerts ++ [alerts] })

/-- Make up a name for a generated local. -/
def syntheticName (s : Session) (stem : String) : String × Session :=
  let count := s.synthetic + 1
  ("__" ++ stem ++ toString count, { s with synthetic := count })

end Session

end HybroidSema
