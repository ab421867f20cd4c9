import HybroidSema.Tree
import HybroidSema.Ty.Agree
import HybroidSema.Number.Reader

/-!
# Values of expressions

What the analyzer knows about the value of an expression: its type, and beyond it the number a
literal denotes, the owner a method was reached through, and the several values of one call.

* `Signature`: what a call is checked against.
* `Value` with `Value.ty`, and `Ty.toValue`, the value of which only the type is known.
* `Value.single`, `Value.toList` and `Value.ofList`: one value and several values.
* `Ty.defaultLiteral?`: what initializes a typed declaration without a value.
-/

namespace HybroidSema

/-! ## Signatures -/

/-- The class or entity through which a method was reached. -/
structure MethodOwner where
  ty : DeclRef
  kind : NamedKind
deriving DecidableEq, Repr

/-- A callable signature. The owner is set when the function was reached as a method. -/
structure Signature where
  generics : List String := []
  params : List Ty := []
  returns : List Ty := []
  owner : Option MethodOwner := none
deriving Repr, Inhabited

namespace Signature

/-- The function type of a signature. -/
def ty (s : Signature) : Ty := .function s.params s.returns s.generics

/-- The signature reached through an owner. -/
def withOwner (s : Signature) (ty : DeclRef) (kind : NamedKind) : Signature :=
  { s with owner := some ⟨ty, kind⟩ }

end Signature

/-! ## Values -/

/-- What is known about the value of an expression. -/
inductive Value where
  /-- A number, with its value if a literal denotes it. -/
  | number (literal : Option Binary64)
  | fixed (kind : FixedKind)
  | bool
  | text
  | function (signature : Signature)
  | list (elem : Ty)
  | map (elem : Ty)
  /-- An instance of a class. -/
  | classObject (ref : DeclRef)
  /-- An instance of an entity. -/
  | entityObject (ref : DeclRef)
  /-- An entity of unknown kind. -/
  | rawEntity
  /-- An enum itself, before one of its fields is chosen. -/
  | enumType (ref : DeclRef)
  /-- A field of an enum. -/
  | enumField (ref : DeclRef)
  | generic (name : String)
  /-- The values of a call or match that produces several, or none. -/
  | tuple (values : List Value)
  /-- The error sentinel. -/
  | invalid
  /-- Anything. -/
  | unknown
deriving Repr, Inhabited

namespace Value

/-- The type of a value. Of several values it is the type of the first. -/
def ty : Value → Ty
  | .number _ => .number
  | .fixed kind => .fixed kind
  | .bool => .bool
  | .text => .text
  | .function signature => signature.ty
  | .list elem => .list elem
  | .map elem => .map elem
  | .classObject ref => .named ref.env ref.name .classDecl
  | .entityObject ref => .named ref.env ref.name .entityDecl
  | .rawEntity => .rawEntity
  | .enumType ref => .enum ref.env ref.name
  | .enumField ref => .enum ref.env ref.name
  | .generic name => .generic name
  | .tuple [] => .invalid
  | .tuple (first :: _) => first.ty
  | .invalid => .invalid
  | .unknown => .object

/-- Whether this is the error sentinel. -/
def isInvalid : Value → Bool
  | .invalid => true
  | _ => false

/-- The first of several values, or the value itself. -/
def single : Value → Value
  | .tuple [] => .invalid
  | .tuple (first :: _) => first
  | value => value

/-- The several values that a value stands for. -/
def toList : Value → List Value
  | .tuple values => values
  | value => [value]

/-- Several values as one. -/
def ofList : List Value → Value
  | [value] => value
  | values => .tuple values

/-- The number that a literal denotes. -/
def literal? : Value → Option Binary64
  | .number literal => literal
  | _ => none

/-- The value without the number that a literal denotes. -/
def forgetLiteral : Value → Value
  | .number _ => .number none
  | value => value

@[simp] theorem ty_forgetLiteral (v : Value) : v.forgetLiteral.ty = v.ty := by
  cases v <;> simp [forgetLiteral, ty]

end Value

/-! ## From types to values -/

/-- The value of which only the type is known. Inside its function a variadic parameter is a
list. -/
def Ty.toValue : Ty → Value
  | .basic .number => .number none
  | .basic .text => .text
  | .basic .bool => .bool
  | .fixed kind => .fixed kind
  | .named env name .classDecl => .classObject ⟨env, name⟩
  | .named env name .entityDecl => .entityObject ⟨env, name⟩
  | .enum env name => .enumField ⟨env, name⟩
  | .function params returns generics => .function ⟨generics, params, returns, none⟩
  | .container .list elem => .list elem
  | .container .map elem => .map elem
  | .variadic elem => .list elem
  | .generic name => .generic name
  | .rawEntity => .rawEntity
  | .object => .unknown
  | .invalid => .invalid

/-- The value of a literal. -/
def Literal.toValue (lit : Literal) : Value :=
  match lit.kind with
  | .number => .number (Binary64.ofLiteral? lit.value)
  | .fixed kind => .fixed kind
  | .text => .text
  | .bool => .bool
  | .nil => .unknown

/-- The expression that initializes a declaration of the type without a value. Classes, entities,
enums, generics and what is no type of a variable have none. -/
def Ty.defaultLiteral? (ty : Ty) (span : Span) : Option Expr :=
  match ty with
  | .basic .number => some (.literal ⟨.number, "0", span⟩)
  | .basic .text => some (.literal ⟨.text, "\"\"", span⟩)
  | .basic .bool => some (.literal ⟨.bool, "false", span⟩)
  | .fixed kind => some (.literal ⟨.fixed kind, "0" ++ kind.suffix, span⟩)
  | .container .list _ => some (.list [] span)
  | .container .map _ => some (.map [] span)
  | .function _ _ _ => some (.function [] [] [] span)
  | _ => none

/-- The literal 1 of a numeric type. -/
def Ty.unitLiteral (ty : Ty) (span : Span) : Expr :=
  match ty with
  | .fixed kind => .literal ⟨.fixed kind, "1" ++ kind.suffix, span⟩
  | _ => .literal ⟨.number, "1", span⟩

end HybroidSema
