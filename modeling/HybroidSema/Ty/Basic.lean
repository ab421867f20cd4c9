import HybroidSema.EnvId

/-!
# Types

The closed set of types of the language, the questions the analyzer asks about a type on its own,
and the text of a type in messages. When two types agree is in `HybroidSema.Ty.Agree`.
-/

namespace HybroidSema

/-- The primitive types. -/
inductive Primitive where
  | number
  | text
  | bool
deriving DecidableEq, Repr

/-- The fixed-point types. They differ in how they are written and agree as types. -/
inductive FixedKind where
  | fixed
  | radian
  | degree
deriving DecidableEq, Repr

namespace FixedKind

/-- The keyword of the type. -/
def name : FixedKind → String
  | fixed => "fixed"
  | radian => "radian"
  | degree => "degree"

/-- The ending of a literal of the type. -/
def suffix : FixedKind → String
  | fixed => "fx"
  | radian => "r"
  | degree => "d"

end FixedKind

/-- What declared a named type. -/
inductive NamedKind where
  | classDecl
  | entityDecl
deriving DecidableEq, Repr

/-- The containers: a list, or a map keyed by text. -/
inductive ContainerKind where
  | list
  | map
deriving DecidableEq, Repr

/-- A type. A variadic type is legal only as the last parameter of a function. -/
inductive Ty where
  | basic (primitive : Primitive)
  | fixed (kind : FixedKind)
  | named (env : EnvId) (name : String) (kind : NamedKind)
  | enum (env : EnvId) (name : String)
  | function (params returns : List Ty) (generics : List String)
  | container (kind : ContainerKind) (elem : Ty)
  | variadic (elem : Ty)
  | generic (name : String)
  | rawEntity
  | object
  | invalid
deriving Repr, Inhabited

namespace Ty

/-! ## Short forms -/

/-- The type `number`. -/
abbrev number : Ty := .basic .number

/-- The type `text`. -/
abbrev text : Ty := .basic .text

/-- The type `bool`. -/
abbrev bool : Ty := .basic .bool

/-- The type `list<elem>`. -/
abbrev list (elem : Ty) : Ty := .container .list elem

/-- The type `map<elem>`. -/
abbrev map (elem : Ty) : Ty := .container .map elem

/-- A function type without generics. -/
abbrev fn (params returns : List Ty) : Ty := .function params returns []

/-! ## Questions about one type -/

/-- Whether this is the error sentinel. -/
def isInvalid : Ty → Bool
  | .invalid => true
  | _ => false

/-- Whether arithmetic is defined on the type. -/
def isNumeric : Ty → Bool
  | .basic .number | .fixed _ | .enum _ _ => true
  | _ => false

/-- Whether this is `text`. -/
def isText : Ty → Bool
  | .basic .text => true
  | _ => false

/-- Whether this is some entity, of a known kind or not. -/
def isEntity : Ty → Bool
  | .rawEntity | .named _ _ .entityDecl => true
  | _ => false

/-- The kind and the element type of a list or map. -/
def contents? : Ty → Option (ContainerKind × Ty)
  | .container kind elem => some (kind, elem)
  | _ => none

/-- The element type, if the type is a container of the given kind. -/
def elemOf? (kind : ContainerKind) : Ty → Option Ty
  | .container k elem => if k = kind then some elem else none
  | _ => none

mutual
/-- Whether a generic parameter occurs in the type. -/
def mentions (generic : String) : Ty → Bool
  | .generic name => name == generic
  | .container _ elem => elem.mentions generic
  | .variadic elem => elem.mentions generic
  | .function params returns _ => anyMentions generic params || anyMentions generic returns
  | _ => false

/-- Whether a generic parameter occurs in one of the types. -/
def anyMentions (generic : String) : List Ty → Bool
  | [] => false
  | ty :: rest => ty.mentions generic || anyMentions generic rest
end

mutual
/-- Whether any generic parameter occurs in the type. -/
def hasGenerics : Ty → Bool
  | .generic _ => true
  | .container _ elem => elem.hasGenerics
  | .variadic elem => elem.hasGenerics
  | .function params returns _ => anyHasGenerics params || anyHasGenerics returns
  | _ => false

/-- Whether any generic parameter occurs in one of the types. -/
def anyHasGenerics : List Ty → Bool
  | [] => false
  | ty :: rest => ty.hasGenerics || anyHasGenerics rest
end

/-! ## The text of a type -/

mutual
/-- The text of a type in messages. -/
def render : Ty → String
  | .basic .number => "number"
  | .basic .text => "text"
  | .basic .bool => "bool"
  | .fixed kind => kind.name
  | .named _ name _ => name
  | .enum _ name => name
  | .function params returns generics =>
    let quantified :=
      if generics.isEmpty then "" else "<" ++ String.intercalate ", " generics ++ ">"
    let result := match renderAll returns with
      | [] => ""
      | [one] => " -> " ++ one
      | many => " -> (" ++ String.intercalate ", " many ++ ")"
    "fn" ++ quantified ++ "(" ++ String.intercalate ", " (renderAll params) ++ ")" ++ result
  | .container .list elem => "list<" ++ elem.render ++ ">"
  | .container .map elem => "map<" ++ elem.render ++ ">"
  | .variadic elem => "..." ++ elem.render
  | .generic name => name
  | .rawEntity => "entity"
  | .object => "object"
  | .invalid => "<invalid>"

/-- The texts of several types. -/
def renderAll : List Ty → List String
  | [] => []
  | ty :: rest => ty.render :: renderAll rest
end

end Ty

end HybroidSema
