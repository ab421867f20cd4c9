import HybroidSema.Check.Tree
import HybroidSema.Declare.Pass

/-!
# Building a session

Environments are walked in registration order, and an environment that another one reaches is
walked on demand before the requester goes on. Each is walked at most once: `Session.walk` does
nothing for an environment that was started before.

A walk marks its environment as started before it can reach others, so walks nest at most as deep
as there are environments. `Session.walk` takes that depth as an argument, and
`Session.walkEnvironment` passes the number of environments.

* `Session.walkEnvironment`, `Session.build` and `analyze`.
* `Session.declareIn` and `Session.walkIn`: the declarations alone, and one walk over a given
  program, for an environment whose own program stays untouched.
* `BuildOutput`: the environments, resolved programs and alerts of a finished build.
-/

namespace HybroidSema

namespace Session

/-! ## Walking one environment -/

/-- Run a check for an environment. -/
def runCheck {α : Type} (s : Session) (id : EnvId)
    (walk : EnvId → Session → Except CompileError (Option CompileError × Session))
    (check : Check α) : Except CompileError (α × Check.State) :=
  check.run { env := id, walk := walk } |>.run { session := s }

/-- The session with a program taken out and its environment marked as being walked. -/
def checkOut (s : Session) (id : EnvId) (index : Nat) : Session :=
  { s with
    programs := s.programs.set index none
    registry := s.registry.modify id fun env => { env with state := .walking } }

/-- The session with a walked program put back and its alerts added. -/
def checkIn (s : Session) (id : EnvId) (index : Nat) (program : Program) (alerts : Diagnostics) :
    Session :=
  { s with
    programs := s.programs.set index (some program)
    alerts := s.alerts.modify index (·.append alerts)
    registry := s.registry.modify id fun env => { env with state := .walked } }

/-- Declare and check a program for the environment of the check. -/
def walkProgram (program : Program) : Check Program := do
  let _ ← Declare.program program
  Check.program program

/-- Walk an environment unless it was started before. The result is the error that ends the build,
if there is one. Walks nest at most `depth` deep. -/
def walk : (depth : Nat) → EnvId → Session → Except CompileError (Option CompileError × Session)
  | depth, id, s =>
    match id.userIndex?, s.registry.get? id with
    | some index, some env =>
      if env.state != .notWalked then .ok (none, s)
      else
        match s.programs[index]?, depth with
        | some (some program), depth + 1 => do
          let (program, state) ←
            (s.checkOut id index).runCheck id (walk depth) (walkProgram program)
          return (state.fatal, state.session.checkIn id index program state.alerts)
        | _, _ => .ok (some (.programCheckedOut env.path), s)
    | _, _ => .ok (some (.unknownEnvironment id), s)

/-- Walk an environment unless it was started before. -/
def walkEnvironment (id : EnvId) (s : Session) :
    Except CompileError (Option CompileError × Session) :=
  s.walk s.registry.envs.length id

/-! ## Walking a given program -/

/-- What a walk over a given program left: its alerts, and the error that would end the build. -/
structure Outcome (α : Type) where
  result : α
  alerts : Diagnostics
  fatal : Option CompileError

/-- Run a check for an environment, with nested walks as deep as there are environments. -/
def runIn {α : Type} (s : Session) (id : EnvId) (check : Check α) :
    Except CompileError (Outcome α × Session) := do
  let (result, state) ← s.runCheck id (walk s.registry.envs.length) check
  return (⟨result, state.alerts, state.fatal⟩, state.session)

/-- Register the declarations of a program in an environment. -/
def declareIn (s : Session) (id : EnvId) (program : Program) :
    Except CompileError (Outcome Declare.Counts × Session) :=
  s.runIn id (Declare.program program)

/-- Declare and check a program in an environment. -/
def walkIn (s : Session) (id : EnvId) (program : Program) :
    Except CompileError (Outcome Program × Session) :=
  s.runIn id (walkProgram program)

end Session

/-! ## Builds -/

/-- The result of a finished build, in registration order. -/
structure BuildOutput where
  registry : Registry
  programs : List Program
  alerts : List Diagnostics
  denyWarnings : Bool

namespace Session

/-- Walk the environments at the given positions in order, up to the first error. -/
def walkAll : List Nat → Session → Except CompileError Session
  | [], s => .ok s
  | index :: rest, s => do
    match ← s.walkEnvironment (.user index) with
    | (some error, _) => .error error
    | (none, s) => walkAll rest s

/-- The programs of a session, all of which must be in their slots. -/
def collect : List (Option Program) → List Environment → Except CompileError (List Program)
  | some program :: slots, _ :: envs => do
    let programs ← collect slots envs
    return program :: programs
  | none :: _, env :: _ => .error (.programCheckedOut env.path)
  | _, _ => .ok []

/-- Walk every environment in registration order, and collect what is left. -/
def build (s : Session) : Except CompileError BuildOutput := do
  let s ← s.walkAll (List.range s.registry.envs.length)
  let programs ← collect s.programs s.registry.envs
  return { registry := s.registry
           programs := programs
           alerts := s.alerts
           denyWarnings := s.config.denyWarnings }

end Session

namespace BuildOutput

/-- Whether there are no errors, and no warnings if they are denied. -/
def isSuccess (b : BuildOutput) : Bool :=
  b.alerts.all fun d => !d.hasErrors && !(b.denyWarnings && d.hasWarnings)

/-- The number of errors over all environments. -/
def errorCount (b : BuildOutput) : Nat := b.alerts.foldr (fun d count => d.errorCount + count) 0

/-- Every alert with the environment that reported it. -/
def allAlerts (b : BuildOutput) : List (EnvId × Alert) :=
  b.alerts.zipIdx.flatMap fun (d, index) => d.alerts.map (.user index, ·)

/-- The codes of the alerts of each environment. -/
def codes (b : BuildOutput) : List (List AlertCode) := b.alerts.map Diagnostics.codes

/-- How often a code is reported. -/
def codeCount (b : BuildOutput) (code : AlertCode) : Nat := b.codes.flatten.count code

end BuildOutput

/-- Analyze programs, given with their paths, in one session. -/
def analyze (config : Config) (files : List (String × Program)) : Except CompileError BuildOutput :=
  (files.foldl (fun s (path, program) => (s.addProgram path program).2) (Session.new config)).build

/-- The codes of the alerts of each file, if the programs can be analyzed. -/
def analyzedCodes (files : List (String × Program)) : Option (List (List AlertCode)) :=
  (analyze {} files).toOption.map BuildOutput.codes

end HybroidSema
