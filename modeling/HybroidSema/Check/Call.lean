import HybroidSema.Check.Values
import HybroidSema.Check.WrittenType

/-!
# Calls

Every call, of a function, a method, a constructor or a lifecycle function, is checked by
`Check.call`: the explicit generic arguments are resolved, the arguments are checked with the
parameter types as hints, generics are bound, and the argument types are compared with the
parameters.

The arguments of a call that cannot be checked are still walked. How arguments are walked is
given from outside, because they are expressions.
-/

namespace HybroidSema.Check

/-- What the arguments of a call are told to expect. A parameter with generics gives no hint. -/
def hintsOf (params : List Ty) : List Ty :=
  params.map fun param => if param.hasGenerics then .invalid else param

/-- Bind the generics of a call, reporting surplus generic arguments and what stays unbound. -/
def bindGenerics (signature : Signature) (explicit args : List Ty) (span : Span) :
    Check Bindings := do
  let bound ← match resolveGenerics explicit signature.generics signature.params args with
    | .ok bindings => pure bindings
    | .error (.tooMany expected got) => do
      report (.tooManyValuesGiven expected got "generic arguments") span
      pure .empty
  let (missing, bindings) := fillUnbound signature.generics bound
  if !args.any Ty.isInvalid then
    missing.forM fun name => report (.unresolvedGeneric name) span
  return bindings

/-- Check a call against a signature. The result are the arguments and the return types. -/
def call (signature : Signature) (explicit : List TypeExpr)
    (walkArgs : List Ty → Check (List Expr × List (Value × Span))) (span : Span) :
    Check (List Expr × List Ty) := do
  let explicit ← resolveTypes explicit
  let (args, values) ← walkArgs (hintsOf signature.params)
  let bindings ← bindGenerics signature explicit (typesOf values) span
  let typed := values.map fun (value, span) => (value.ty, span)
  (validateArguments (signature.params.map (·.substitute bindings)) typed span).forM alert
  return (args, signature.returns.map (·.substitute bindings))

/-- The value of a call with the given return types. -/
def callValue (returns : List Ty) : Value := .ofList (returns.map Ty.toValue)

/-- A checked call: a method reached through a field becomes a method call. -/
def callNode (caller : Expr) (owner : Option MethodOwner) (generics : List TypeExpr)
    (args : List Expr) (returnAmount : Nat) (span : Span) : Expr :=
  match owner, caller with
  | some owner, .field target method _ _ =>
    .methodCall target owner.ty owner.kind method generics args returnAmount span
  | _, _ => .call caller generics args returnAmount span

/-- What the method of a method call turned out to be. -/
inductive CalledMethod where
  | found (signature : Signature)
  /-- The owner has no such method. -/
  | missing
  /-- The owner is not declared. -/
  | ownerless

/-- The method that a method call names. Its absence is reported; an owner that is not declared
ends the build. -/
def calledMethod (owner : DeclRef) (kind : NamedKind) (method : Ident) : Check CalledMethod := do
  match ← members? owner kind with
  | none =>
    fail (.unregisteredContainer owner.name method.name)
    return .ownerless
  | some members =>
    match members.method? method.name with
    | some method => return .found method.signature
    | none =>
      report (.invalidField owner.name method.name) method.span
      return .missing

/-- What `new` or `spawn` creates: the reference and the signature to check against, if it can be
checked. A type that cannot be created is reported. -/
def constructed (ty : TypeExpr) (kind : NamedKind) (keyword : String) :
    Check (Option DeclRef × Option Signature) := do
  match ← resolveType ty, kind with
  | .named env name .classDecl, .classDecl =>
    let info ← class? ⟨env, name⟩
    return (some ⟨env, name⟩, info.bind (·.constructor))
  | .named env name .entityDecl, .entityDecl =>
    let info ← entity? ⟨env, name⟩
    return (some ⟨env, name⟩, info.bind (·.spawner))
  | resolved, _ =>
    if !resolved.isInvalid then
      report (.notConstructible resolved.render keyword) ty.span
    return (none, none)

end HybroidSema.Check
