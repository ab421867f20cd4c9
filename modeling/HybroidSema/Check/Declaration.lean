import HybroidSema.Check.Values
import HybroidSema.Check.WrittenType

/-!
# Declarations of variables and functions

A variable takes the type of its value or its written type. Without a value a written type is
initialized with its default literal, which is written into the tree. A constant remembers the
literal that replaces it, and only a constant keeps the number that a literal denotes.
-/

namespace HybroidSema.Check

/-- The header of a declaration of variables. -/
structure Declaration where
  names : List Ident
  declared : Option Ty
  isPub : Bool
  isConst : Bool
  span : Span

/-- The default literals and values for the names of a typed declaration without values. -/
def typedDefaults (ty : Ty) : List Ident → Check (List Expr × List Value)
  | [] => return ([], [])
  | name :: rest => do
    let literal ← match ty.defaultLiteral? name.span with
      | some literal => pure [literal]
      | none => do
        if !ty.isInvalid then report (.explicitTypeNotAllowed name.name ty) name.span
        pure []
    let (literals, values) ← typedDefaults ty rest
    return (literal ++ literals, ty.toValue :: values)

/-- The expressions and values of a declaration that is written without any. -/
def defaultValues (d : Declaration) : Check (List Expr × List Value) := do
  if d.isConst then
    let name := match d.names with
      | [] => ""
      | name :: _ => name.name
    report (.noValueGivenForConstant name) d.span
  match d.declared with
  | some ty => typedDefaults ty d.names
  | none =>
    if !d.isConst then
      d.names.forM fun name => report (.explicitTypeRequiredInDeclaration name.name) name.span
    return ([], [])

/-- The value of a declared name: its written type counts, and must agree with the value given. -/
def declaredValue (name : Ident) (declared : Option Ty) (given : Value) : Check Value := do
  match declared with
  | none => return given
  | some ty =>
    if !given.ty.agrees ty then
      report (.explicitTypeMismatch name.name ty given.ty) name.span
    return ty.toValue

/-- The binding of a declared name. -/
def declaredVariable (d : Declaration) (name : Ident) (value : Value)
    (literal : Option Literal) : Variable :=
  { name := name.name
    value := if d.isConst then value else value.forgetLiteral
    span := name.span
    isPub := d.isPub
    isConst := d.isConst
    constant := if d.isConst then literal else none }

/-- Declare names with their values. A name without a value is invalid. The literals are those of
a declaration with one expression for each name. -/
def declareNames (d : Declaration) : (names : List Ident) → (values : List Value) →
    (literals : List (Option Literal)) → Check Unit
  | [], _, _ => return
  | name :: names, values, literals => do
    let value ← declaredValue name d.declared (values.head?.getD .invalid)
    declare (declaredVariable d name value (literals.head?.getD none))
      (if d.isConst then "constant" else "variable")
    declareNames d names values.tail literals.tail

/-- The literals that replace the names of a declaration: there are some only if every name has
its own expression. -/
def inlinedLiterals (names : List Ident) (exprs : List Expr) : List (Option Literal) :=
  if exprs.length = names.length then exprs.map Expr.literal? else []

/-- The signature of a function that the declarations of the file registered at a position. -/
def registeredFunction? (name : Ident) : Check (Option Signature) := do
  match (← scopes).root.bindings.get? name.name with
  | some binding =>
    match binding.value with
    | .function signature => return if binding.span = name.span then some signature else none
    | _ => return none
  | none => return none

/-- The signature of a function declaration. A top-level function was registered before; a local
one is bound now. -/
def functionSignature (name : Ident) (generics : List Ident) (params : List Param)
    (returns : List TypeExpr) (isPub : Bool) (span : Span) : Check Signature := do
  if (← scopes).isRoot then
    match ← registeredFunction? name with
    | some signature => return signature
    | none => resolveSignature generics params returns
  else
    if isPub then report .publicDeclarationInLocalScope span
    let signature ← resolveSignature generics params returns
    declare
      { name := name.name, value := .function signature, span := name.span, isConst := true }
      "function"
    return signature

/-- Whether a declaration stands at the root; it is reported if it does not. -/
def atRoot (what : String) (span : Span) : Check Bool := do
  if (← scopes).isRoot then return true
  report (.declarationInLocalScope what) span
  return false

end HybroidSema.Check
