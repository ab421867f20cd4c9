import HybroidSema.Check.WrittenType
import HybroidSema.Declare.Names

/-!
# Members of classes and entities

Fields, methods, constructors and lifecycle functions are registered with their types; bodies and
initializers are checked later. The signature of a lifecycle function is compared with what the
engine expects.

The first lifecycle function of a kind counts. An entity must have a spawn and a destroy function.
-/

namespace HybroidSema.Declare

open Check

/-! ## Fields and methods -/

/-- Report a member whose name is taken. -/
def memberClash (name : Ident) (what : String) (first : Span) : Check Unit :=
  alert { kind := .redeclaration name.name what, span := name.span, more := [first] }

/-- The value with which a field is registered: its declared type, or the type of the literal
that initializes it, or anything. -/
def fieldValue (decl : VariableDecl) (declared : Option Ty) (index : Nat) : Value :=
  match declared with
  | some ty => ty.toValue
  | none =>
    match (decl.values[index]?).bind Expr.literal? with
    | some lit =>
      if decl.values.length = decl.names.length then lit.toValue.forgetLiteral else .unknown
    | none => .unknown

/-- Register the names of one field declaration, from a position on. -/
def registerNames (decl : VariableDecl) (declared : Option Ty) : (index : Nat) → List Ident →
    Members → Check Members
  | _, [], members => return members
  | index, name :: rest, members => do
    let field : Variable :=
      { name := name.name
        value := fieldValue decl declared index
        span := name.span
        isPub := decl.isPub
        isConst := decl.isConst
        isInit := !decl.values.isEmpty }
    match members.addField field with
    | .ok members => registerNames decl declared (index + 1) rest members
    | .error first =>
      memberClash name "field" first
      registerNames decl declared (index + 1) rest members

/-- Register fields. -/
def registerFields : List VariableDecl → Members → Check Members
  | [], members => return members
  | decl :: rest, members => do
    let declared ← resolveType? decl.ty
    let members ← registerNames decl declared 0 decl.names members
    registerFields rest members

/-- Register methods, counting the ones that were added. -/
def registerMethods : List FunctionDecl → Members → Check (Members × Nat)
  | [], members => return (members, 0)
  | decl :: rest, members => do
    let signature ← resolveSignature decl.generics decl.params decl.returns
    match members.addMethod decl.name.name signature decl.name.span with
    | .ok members =>
      let (members, count) ← registerMethods rest members
      return (members, count + 1)
    | .error first =>
      memberClash decl.name "method" first
      registerMethods rest members

/-! ## Classes -/

/-- Register the constructor of a class, or report that there is none. -/
def registerConstructor (decl : ClassDecl) : Check (Option Signature) := do
  match decl.constructor with
  | some constructor =>
    return some (← resolveSignature constructor.generics constructor.params [])
  | none =>
    report (.missingConstructor decl.name.name) decl.name.span
    return none

/-- Register the members of a class that has its name, counting its functions. -/
def registerClass (decl : ClassDecl) : Check Nat := do
  if ← ownsName decl.name then
    let members ← registerFields decl.fields {}
    let (members, methods) ← registerMethods decl.methods members
    let constructor ← registerConstructor decl
    modifyEnvironment fun env =>
      { env with
        classes := env.classes.modify decl.name.name fun info =>
          { info with members := members, constructor := constructor } }
    return methods + constructor.toList.length
  return 0

/-! ## Entities -/

/-- Whether a signature starts with the two coordinates of a position. -/
def hasPositionParams (signature : Signature) : Bool :=
  let isCoordinate : Ty → Bool
    | .fixed .fixed | .invalid => true
    | _ => false
  match signature.params with
  | x :: y :: _ => isCoordinate x && isCoordinate y
  | _ => false

/-- The signature with which the engine calls a lifecycle function. -/
def engineSignature? : LifecycleKind → Option Signature
  | .wallCollision => some { params := [.fixed .fixed, .fixed .fixed] }
  | .weaponCollision =>
    some { params := [.number, .enum (.ofLibrary .pewpew) "WeaponType"], returns := [.bool] }
  | .playerCollision => some { params := [.number, .rawEntity] }
  | .update => some {}
  | .spawn | .destroy => none

/-- Resolve the signature of a lifecycle function and compare it with what the engine expects. -/
def lifecycleSignature (decl : LifecycleDecl) : Check Signature := do
  let signature ← resolveSignature decl.generics decl.params decl.returns
  match engineSignature? decl.kind with
  | none =>
    if decl.kind == .spawn && !hasPositionParams signature then
      report .spawnerParameters decl.span
    if !signature.returns.isEmpty then report (.lifecycleReturns decl.kind.name) decl.span
  | some expected =>
    if !(signature.ty.agrees expected.ty) || !signature.generics.isEmpty then
      report
        (.entityFunctionSignatureMismatch decl.kind.name expected.ty signature.ty) decl.span
  return signature

/-- A registered lifecycle function. -/
structure Lifecycle where
  kind : LifecycleKind
  span : Span
  signature : Signature

/-- Register the first lifecycle function of each kind, after the ones already registered. A
further one is reported. -/
def registerLifecycles (entity : Ident) : List LifecycleDecl → (first : List Lifecycle) →
    Check (List Lifecycle)
  | [], first => return first
  | decl :: rest, first => do
    match first.find? (·.kind == decl.kind) with
    | some registered =>
      alert
        { kind := .multipleEntityFunctions entity.name decl.kind.name
          span := decl.span
          more := [registered.span] }
      registerLifecycles entity rest first
    | none =>
      let signature ← lifecycleSignature decl
      registerLifecycles entity rest (first ++ [⟨decl.kind, decl.span, signature⟩])

/-- The signature of the registered lifecycle function of a kind. -/
def lifecycleOf? (kind : LifecycleKind) (registered : List Lifecycle) : Option Signature :=
  (registered.find? (·.kind == kind)).map (·.signature)

/-- Report a lifecycle function that an entity lacks. -/
def requireLifecycle (entity : Ident) (kind : LifecycleKind) (registered : List Lifecycle) :
    Check Unit := do
  if (lifecycleOf? kind registered).isNone then
    report (.missingEntityFunction entity.name kind.name) entity.span

/-- Register the members of an entity that has its name, counting its functions. -/
def registerEntity (decl : EntityDecl) : Check Nat := do
  if ← ownsName decl.name then
    let members ← registerFields decl.fields {}
    let (members, methods) ← registerMethods decl.methods members
    let registered ← registerLifecycles decl.name decl.functions []
    requireLifecycle decl.name .spawn registered
    requireLifecycle decl.name .destroy registered
    modifyEnvironment fun env =>
      { env with
        entities := env.entities.modify decl.name.name fun info =>
          { info with
            members := members
            spawner := lifecycleOf? .spawn registered
            destroyer := lifecycleOf? .destroy registered
            callbacks := (registered.filter (·.kind.isCallback)).map fun l =>
              (l.kind, l.signature) } }
    return methods + registered.length
  return 0

end HybroidSema.Declare
