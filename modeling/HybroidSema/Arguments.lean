import HybroidSema.Ty.Generic
import HybroidSema.Ty.Agree
import HybroidSema.Alert.Basic

/-!
# Arguments of a call

A call of a generic function binds each declared generic: from an explicit generic argument, or
else from the first argument whose parameter mentions it. The arguments are then compared with the
parameters in which the bound generics are replaced.

Nothing here ends a build: a generic that stays unbound becomes the error sentinel, so that the
rest of the call is still checked.
-/

namespace HybroidSema

/-- The parameter that the argument at a position is checked against. All arguments from a
trailing variadic on are checked against its element type. -/
def paramAt? (params : List Ty) (index : Nat) : Option Ty :=
  match params.getLast? with
  | some (.variadic elem) => if params.length - 1 ≤ index then some elem else params[index]?
  | _ => params[index]?

/-! ## Generic arguments -/

/-- Why the generic arguments of a call were refused. -/
inductive GenericError where
  | tooMany (expected got : Nat)
deriving DecidableEq, Repr

/-- The text of a refusal. -/
def GenericError.message : GenericError → String
  | tooMany expected got => s!"expected at most {expected} generic arguments, got {got}"

/-- The first argument whose parameter mentions a generic, with that parameter. -/
def mentioning? (params : List Ty) (generic : String) (args : List Ty) : Option (Ty × Ty) :=
  args.zipIdx.findSome? fun (arg, index) => do
    let param ← paramAt? params index
    if param.mentions generic then some (param, arg) else none

/-- Bind a generic from the arguments, if they determine it. -/
def bindFrom (params args : List Ty) (bindings : Bindings) (generic : String) : Bindings :=
  match mentioning? params generic args with
  | some (param, arg) =>
    match param.infer? generic arg with
    | some ty => bindings.insert generic ty
    | none => bindings
  | none => bindings

/-- Bind the declared generics of a call: the first ones to the explicit generic arguments, the
others from the arguments. A generic that cannot be bound is left out. -/
def resolveGenerics (explicit : List Ty) (declared : List String) (params args : List Ty) :
    Except GenericError Bindings :=
  if declared.length < explicit.length then .error (.tooMany declared.length explicit.length)
  else
    let given := Table.ofList (declared.zip explicit)
    .ok ((declared.drop explicit.length).foldl (bindFrom params args) given)

/-- Bind every declared generic that is still unbound to the error sentinel, and tell which. -/
def fillUnbound : (declared : List String) → Bindings → List String × Bindings
  | [], bindings => ([], bindings)
  | name :: rest, bindings =>
    if bindings.contains name then fillUnbound rest bindings
    else
      let (missing, filled) := fillUnbound rest (bindings.insert name .invalid)
      (name :: missing, filled)

/-! ## Checking arguments -/

/-- The span from the position after the first `count` items to the last one, if there are more. -/
def surplusSpan? (count : Nat) (spans : List Span) : Option Span := do
  let first ← (spans.drop count).head?
  let last ← spans.getLast?
  pure (first.extendTo last)

/-- The alerts of arguments that do not agree with their parameters, from a position on. -/
def argumentMismatches (params : List Ty) : (index : Nat) → List (Ty × Span) → List Alert
  | _, [] => []
  | index, (arg, span) :: rest =>
    match paramAt? params index with
    | none => []
    | some param =>
      let later := argumentMismatches params (index + 1) rest
      if param.agrees arg then later
      else { kind := .invalidArgumentType (index + 1) param arg, span := span } :: later

/-- The alerts of a call with the given arguments: one for a missing or surplus run, and one for
each argument that does not agree with its parameter. -/
def validateArguments (params : List Ty) (args : List (Ty × Span)) (call : Span) : List Alert :=
  let isVariadic := match params.getLast? with
    | some (.variadic _) => true
    | _ => false
  let required := if isVariadic then params.length - 1 else params.length
  let spans := args.map Prod.snd
  let missing : List Alert :=
    if args.length < required then
      [{ kind := .tooFewValuesGiven required args.length "arguments"
         span := spans.getLast?.getD call }]
    else []
  let surplus : List Alert :=
    match isVariadic, surplusSpan? required spans with
    | false, some span =>
      [{ kind := .tooManyValuesGiven required args.length "arguments", span := span }]
    | _, _ => []
  missing ++ surplus ++ argumentMismatches params 0 args

end HybroidSema
