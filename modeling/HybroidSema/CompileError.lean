import HybroidSema.EnvId

/-!
# Errors that end a build

Problems in user code are alerts and never stop the analysis. A `CompileError` is a broken
contract inside the analysis itself.
-/

namespace HybroidSema

/-- Why a build was given up. -/
inductive CompileError where
  /-- A handle under which no environment is registered was to be walked. -/
  | unknownEnvironment (id : EnvId)
  /-- A program was to be walked while it was already being walked. -/
  | programCheckedOut (path : String)
  /-- A member was checked before its class or entity was registered. -/
  | unregisteredContainer (container member : String)
  /-- A handle that is no user environment was used as one. -/
  | unregistered (id : EnvId)
deriving DecidableEq, Repr

/-- The text of an error. -/
def CompileError.message : CompileError → String
  | unknownEnvironment id => "no environment is registered as " ++ id.render
  | programCheckedOut path => "the program of '" ++ path ++ "' is already being walked"
  | unregisteredContainer container member =>
    "'" ++ member ++ "' was checked before its container '" ++ container ++ "' was registered"
  | unregistered id => id.render ++ " is not a registered user environment"

end HybroidSema
