import HybroidSema.Check.Values
import HybroidSema.Check.WrittenType

/-!
# Bodies of classes and entities

The scope of a class or entity binds its fields and methods, so that its functions can use them
without `self`. Initializers of fields are checked first, and a field that was registered without
a known type takes the type of its initializer. After the constructor, or the first spawn
function, every field must have been assigned.
-/

namespace HybroidSema.Check

/-- Bind the fields and methods of a class or entity in its scope. -/
def bindMembers (members : Members) : Check Unit := do
  members.fields.forM (declare · "field")
  members.methods.entries.forM fun (name, method) =>
    declare
      { name := name
        value := .function method.signature
        span := method.span
        isConst := true } "method"

/-! ## Fields -/

/-- Give a field the value of its initializer, in the scope and in the declared container. -/
def refineField (owner : DeclRef) (kind : NamedKind) (name : String) (value : Value) :
    Check Unit := do
  modifyScopes fun stack =>
    stack.modifyVariable stack.currentPosition name fun v => { v with value := value }
  modifyEnvironment (·.modifyMembers kind owner.name (·.setField name value))

/-- Compare an initializer with the registered value of its field. -/
def checkInitializer (owner : DeclRef) (kind : NamedKind) (name : Ident)
    (registered : Option Value) (value : Value) (span : Span) : Check Unit :=
  match registered with
  | some .unknown => refineField owner kind name.name value
  | some registered => checkType registered.ty value.ty "field" span
  | none => pure ()

/-- The registered values of the fields with the given names. -/
def registeredValues (members : Members) (names : List Ident) : List (Option Value) :=
  names.map fun name => (members.field? name.name).map (·.2.value)

/-- What the initializers of fields are told to expect. -/
def initializerHints (registered : List (Option Value)) : List Ty :=
  registered.map fun value => (value.map Value.ty).getD .invalid

/-- Compare the initializers of one declaration with its fields. -/
def checkInitializers (owner : DeclRef) (kind : NamedKind) (names : List Ident)
    (registered : List (Option Value)) (values : List (Value × Span)) : Check Unit :=
  ((names.zip registered).zip values).forM fun ((name, registered), (value, span)) =>
    checkInitializer owner kind name registered value span

/-- Report every field of the innermost scope that was never assigned, in source order. -/
def checkFieldsInitialized (span : Span) : Check Unit := do
  let unassigned := (← scopes).current.bindings.values.filter (!·.isInit)
  (Span.sortBy Variable.span unassigned).forM fun field =>
    alert { kind := .uninitializedField field.name, span := field.span, more := [span] }

/-! ## Functions -/

/-- The signature of a method: the registered one if this declaration registered it. -/
def methodSignature (members : Members) (name : Ident) (generics : List Ident)
    (params : List Param) (returns : List TypeExpr) : Check Signature := do
  match members.method? name.name with
  | some method =>
    if method.span = name.span then return method.signature
    resolveSignature generics params returns
  | none => resolveSignature generics params returns

/-- The signature of a lifecycle function, and whether it is the first one of its kind to be
walked. -/
def walkedSignature (entity : EntityInfo) (seen : List LifecycleKind) (kind : LifecycleKind)
    (generics : List Ident) (params : List Param) (returns : List TypeExpr) :
    Check (Signature × Bool) := do
  match entity.lifecycle? kind with
  | some signature =>
    if seen.contains kind then return (← resolveSignature generics params returns, false)
    return (signature, true)
  | none => return (← resolveSignature generics params returns, false)

/-- Bind the parameters of a function. -/
def bindParams (params : List Param) (types : List Ty) : Check Unit :=
  (params.zip types).forM fun (param, ty) =>
    declare { name := param.name.name, value := ty.toValue, span := param.name.span } "parameter"

/-- Check a function body in its own scope with its parameters bound. A function with return
types must return on every path. -/
def inFunction (signature : Signature) (params : List Param) (span : Span)
    (body : Check (List Stmt)) : Check (List Stmt) := do
  let tag : FuncTag := { generics := signature.generics, returns := signature.returns }
  let (body, _) ← inScope (·.pushFunction tag) do
    bindParams params signature.params
    let body ← body
    let exits := (← scopes).current.exits
    if !signature.returns.isEmpty && !exits.byReturn then
      report (.notAllCodePathsExit "return") span
    return body
  return body

end HybroidSema.Check
