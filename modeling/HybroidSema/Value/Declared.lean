import HybroidSema.Table
import HybroidSema.Value.Basic

/-!
# Declared things

What environments and scopes store: variables, the members of classes and entities, and the
classes, entities, enums and aliases themselves.

Fields keep their declaration order, which is their position in the resolved tree. Fields and
methods of one container share one space of names: `Members.addField` and `Members.addMethod`
refuse a name that is taken and answer where it was declared.
-/

namespace HybroidSema

/-! ## Variables -/

/-- A named binding of a scope, a field, or a member of a library. -/
structure Variable where
  name : String
  value : Value
  span : Span
  isPub : Bool := false
  isConst : Bool := false
  /-- Read at least once. -/
  isUsed : Bool := false
  /-- Assigned a value. -/
  isInit : Bool := true
  /-- The literal that replaces every use of a constant. -/
  constant : Option Literal := none
deriving Repr

/-! ## Members of a class or entity -/

/-- A method with its position. -/
structure Method where
  signature : Signature
  span : Span
deriving Repr

/-- The fields in declaration order and the methods of a class or entity. -/
structure Members where
  fields : List Variable := []
  methods : Table Method := .empty
deriving Repr, Inhabited

namespace Members

/-- A field by name, with its position in declaration order. -/
def field? (m : Members) (name : String) : Option (Nat × Variable) := do
  let index ← m.fields.findIdx? (·.name == name)
  let field ← m.fields[index]?
  pure (index, field)

/-- A method by name. -/
def method? (m : Members) (name : String) : Option Method := m.methods.get? name

/-- Whether there is a method with the name. -/
def hasMethod (m : Members) (name : String) : Bool := m.methods.contains name

/-- Where a field or method with the name was declared. -/
def memberSpan? (m : Members) (name : String) : Option Span :=
  (m.field? name).map (·.2.span) <|> (m.method? name).map (·.span)

/-- Add a field, or answer where its name is taken. -/
def addField (m : Members) (field : Variable) : Except Span Members :=
  match m.memberSpan? field.name with
  | some taken => .error taken
  | none => .ok { m with fields := m.fields ++ [field] }

/-- Add a method, or answer where its name is taken. -/
def addMethod (m : Members) (name : String) (signature : Signature) (span : Span) :
    Except Span Members :=
  match m.memberSpan? name with
  | some taken => .error taken
  | none => .ok { m with methods := m.methods.insert name ⟨signature, span⟩ }

/-- The fields with a new value for the first one of a name. -/
def setFieldIn (name : String) (value : Value) : List Variable → List Variable
  | [] => []
  | field :: rest =>
    if field.name == name then { field with value := value } :: rest
    else field :: setFieldIn name value rest

/-- Give a field a new value. -/
def setField (m : Members) (name : String) (value : Value) : Members :=
  { m with fields := setFieldIn name value m.fields }

end Members

/-! ## Declared types -/

/-- A declared class. -/
structure ClassInfo where
  ty : DeclRef
  span : Span
  isPub : Bool
  members : Members := {}
  constructor : Option Signature := none
deriving Repr

/-- A declared entity, with the signatures of its lifecycle functions. -/
structure EntityInfo where
  ty : DeclRef
  span : Span
  isPub : Bool
  members : Members := {}
  spawner : Option Signature := none
  destroyer : Option Signature := none
  callbacks : List (LifecycleKind × Signature) := []
deriving Repr

namespace EntityInfo

/-- The signature of the lifecycle function of a kind. -/
def lifecycle? (e : EntityInfo) : LifecycleKind → Option Signature
  | .spawn => e.spawner
  | .destroy => e.destroyer
  | kind => e.callbacks.lookup kind

end EntityInfo

/-- A declared enum with its fields in declaration order. -/
structure EnumInfo where
  ty : DeclRef
  span : Span
  isPub : Bool
  fields : List String
deriving Repr

namespace EnumInfo

/-- The position of a field, counted from 0. -/
def fieldIndex? (e : EnumInfo) (name : String) : Option Nat := e.fields.findIdx? (· == name)

end EnumInfo

/-- A declared alias. -/
structure AliasInfo where
  ty : Ty
  span : Span
  isPub : Bool
deriving Repr

end HybroidSema
