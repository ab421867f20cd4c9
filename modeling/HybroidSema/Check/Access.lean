import HybroidSema.Check.Values

/-!
# Fields and elements

`value.field` on a class, entity or enum, and `value[index]` on a list or map, once their parts
are checked. A field of an enum of user code becomes the number of its position, counted from 1.
-/

namespace HybroidSema.Check

/-- The value of a field or method of an instance, with the position of the field. -/
def memberValue (field : Ident) (owner : DeclRef) (kind : NamedKind) :
    Check (Option Nat × Value) := do
  match ← members? owner kind with
  | none =>
    fail (.unregisteredContainer owner.name field.name)
    return (none, .invalid)
  | some members =>
    match members.field? field.name, members.method? field.name with
    | some (index, found), _ => return (some index, found.value)
    | none, some method => return (none, .function (method.signature.withOwner owner kind))
    | none, none =>
      report (.invalidField owner.name field.name) field.span
      return (none, .invalid)

/-- `target.field` for a checked target. -/
def fieldAccess (target : Expr) (value : Value) (field : Ident) (index : Option Nat)
    (span : Span) : Check (Expr × Value) := do
  let kept : Expr := .field target field index span
  match value with
  | .classObject ref =>
    let (found, value) ← memberValue field ref .classDecl
    return (.field target field (found <|> index) span, value)
  | .entityObject ref =>
    let (found, value) ← memberValue field ref .entityDecl
    return (.field target field (found <|> index) span, value)
  | .enumType ref =>
    match (← enum? ref).bind (·.fieldIndex? field.name) with
    | some position =>
      if ref.env.isLibrary then return (kept, .enumField ref)
      return (.literal ⟨.number, toString (position + 1), span⟩, .enumField ref)
    | none =>
      report (.invalidField ref.name field.name) field.span
      return (kept, .invalid)
  | .list _ | .map _ =>
    report (.fieldAccessOnListOrMap field.name) field.span
    return (kept, .invalid)
  | .invalid => return (kept, .invalid)
  | value =>
    report (.invalidAccessValue value.ty) target.span
    return (kept, .invalid)

/-- Report a list index that is no number, or a known number that is no position. -/
def checkListIndex (index : Value) (span : Span) : Check Unit := do
  if !index.ty.agrees .number then
    report (.invalidMemberIndex "list" .number index.ty) span
  else
    match index.literal? with
    | some n =>
      if n.isBelowOne then report (.listIndexOutOfBounds n) span
      else if !n.isWhole then report (.invalidListIndex n) span
    | none => pure ()

/-- The value of `target[index]` for a checked target and index. -/
def elementValue (target : Expr) (value : Value) (index : Expr) (indexValue : Value) :
    Check Value := do
  match value with
  | .list elem =>
    checkListIndex indexValue index.span
    return elem.toValue
  | .map elem =>
    if !indexValue.ty.agrees .text then
      report (.invalidMemberIndex "map" .text indexValue.ty) index.span
    return elem.toValue
  | .invalid => return .invalid
  | value =>
    report (.memberAccessOnNonListOrMap value.ty) target.span
    return .invalid

end HybroidSema.Check
