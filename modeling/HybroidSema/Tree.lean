import HybroidSema.Span
import HybroidSema.Ty.Basic
import HybroidSema.Operator

/-!
# The tree of a program

The tree that the analyzer reads and resolves. Names, written types and literals come first, then
expressions, declarations and statements, which refer to each other.

Some forms are only produced by the analyzer: `Expr.builtin`, `Expr.methodCall`, and the
`Expr.envAccess` and `Expr.field` nodes that replace plain names. The number of values a call or a
match produces, the position of a field, the owner of `self` and the engine mark of an entity test
are annotations that it fills in.
-/

namespace HybroidSema

/-! ## Names, written types and literals -/

/-- A name as written, with its position. -/
structure Ident where
  name : String
  span : Span
deriving DecidableEq, Repr, Inhabited

/-- A declared class, entity or enum: its environment and its name there. -/
structure DeclRef where
  env : EnvId
  name : String
deriving DecidableEq, Repr

/-- A written type: a name, perhaps of another environment, with the types wrapped by a container
and the parts of a function type. -/
structure TypeExpr where
  env : Option Ident
  name : Ident
  wrapped : List TypeExpr
  params : List TypeExpr
  returns : List TypeExpr
  isVariadic : Bool
  span : Span
deriving Repr, Inhabited

/-- A parameter of a function. -/
structure Param where
  name : Ident
  ty : TypeExpr
deriving Repr

/-- The kinds of literal. -/
inductive LiteralKind where
  | number
  | fixed (kind : FixedKind)
  | text
  | bool
  | nil
deriving DecidableEq, Repr

/-- A literal, kept as written. -/
structure Literal where
  kind : LiteralKind
  value : String
  span : Span
deriving DecidableEq, Repr

/-- The lifecycle functions of an entity. -/
inductive LifecycleKind where
  | spawn
  | destroy
  | wallCollision
  | weaponCollision
  | playerCollision
  | update
deriving DecidableEq, Repr

namespace LifecycleKind

/-- The name of the function in messages. -/
def name : LifecycleKind → String
  | spawn => "spawn"
  | destroy => "destroy"
  | wallCollision => "wall collision"
  | weaponCollision => "weapon collision"
  | playerCollision => "player collision"
  | update => "update"

/-- The kinds in the order of their declaration in the language. -/
def all : List LifecycleKind :=
  [spawn, destroy, wallCollision, weaponCollision, playerCollision, update]

/-- The kind with a name. -/
def ofName? (text : String) : Option LifecycleKind := all.find? (·.name == text)

/-- Whether the engine calls the function, and may do without it. -/
def isCallback : LifecycleKind → Bool
  | spawn | destroy => false
  | _ => true

end LifecycleKind

/-- `env Name as Kind`, the declaration a file starts with. -/
structure EnvDecl where
  name : Ident
  kind : Ident
  span : Span
deriving Repr

/-- An enum declaration. -/
structure EnumDecl where
  name : Ident
  fields : List Ident
  isPub : Bool
  span : Span
deriving Repr

/-- `alias Name = Type`. -/
structure AliasDecl where
  name : Ident
  ty : TypeExpr
  isPub : Bool
  span : Span
deriving Repr

/-- `use Name`. -/
structure UseStmt where
  path : Ident
  span : Span
deriving Repr

/-! ## Expressions, declarations and statements -/

mutual
/-- An expression. -/
inductive Expr where
  | literal (lit : Literal)
  | ident (id : Ident)
  | builtin (id : Ident)
  | envAccess (env name : Ident) (span : Span)
  | unary (op : UnaryOp) (operand : Expr) (span : Span)
  | binary (left : Expr) (op : BinaryOp) (right : Expr) (span : Span)
  | group (inner : Expr) (span : Span)
  | list (elems : List Expr) (span : Span)
  | map (entries : List MapEntry) (span : Span)
  | call (caller : Expr) (generics : List TypeExpr) (args : List Expr) (returnAmount : Nat)
      (span : Span)
  | methodCall (receiver : Expr) (owner : DeclRef) (ownerKind : NamedKind) (method : Ident)
      (generics : List TypeExpr) (args : List Expr) (returnAmount : Nat) (span : Span)
  | field (target : Expr) (field : Ident) (index : Option Nat) (span : Span)
  | member (target : Expr) (index : Expr) (span : Span)
  | self (owner : Option NamedKind) (span : Span)
  | new (ty : TypeExpr) (generics : List TypeExpr) (args : List Expr) (span : Span)
  | spawn (ty : TypeExpr) (generics : List TypeExpr) (args : List Expr) (span : Span)
  | function (params : List Param) (returns : List TypeExpr) (body : List Stmt) (span : Span)
  | matching (subject : Expr) (arms : List MatchArm) (returnAmount : Nat) (span : Span)
  | entityTest (value : Expr) (ty : TypeExpr) (binding : Option Ident) (negated : Bool)
      (official : Bool) (span : Span)
  | error (span : Span)

/-- An entry `key = value` of a map. -/
structure MapEntry where
  key : Ident
  value : Expr

/-- An arm of a match. The arm with `isDefault` is the `else` arm. -/
structure MatchArm where
  patterns : List Expr
  isDefault : Bool
  body : List Stmt
  span : Span

/-- A declaration of variables, or of fields of a class or entity. -/
structure VariableDecl where
  names : List Ident
  ty : Option TypeExpr
  values : List Expr
  isPub : Bool
  isConst : Bool
  span : Span

/-- A function or method with a name. -/
structure FunctionDecl where
  name : Ident
  generics : List Ident
  params : List Param
  returns : List TypeExpr
  body : List Stmt
  isPub : Bool
  span : Span

/-- The constructor of a class. -/
structure ConstructorDecl where
  generics : List Ident
  params : List Param
  body : List Stmt
  span : Span

/-- A lifecycle function of an entity. -/
structure LifecycleDecl where
  kind : LifecycleKind
  generics : List Ident
  params : List Param
  returns : List TypeExpr
  body : List Stmt
  span : Span

/-- A class declaration. -/
structure ClassDecl where
  name : Ident
  isPub : Bool
  fields : List VariableDecl
  methods : List FunctionDecl
  constructor : Option ConstructorDecl
  span : Span

/-- An entity declaration, with its lifecycle functions in source order. -/
structure EntityDecl where
  name : Ident
  isPub : Bool
  fields : List VariableDecl
  methods : List FunctionDecl
  functions : List LifecycleDecl
  span : Span

/-- One `elseif` branch. -/
structure ElseIf where
  condition : Expr
  body : List Stmt
  span : Span

/-- A statement. -/
inductive Stmt where
  | env (decl : EnvDecl)
  | variable (decl : VariableDecl)
  | function (decl : FunctionDecl)
  | classDecl (decl : ClassDecl)
  | entityDecl (decl : EntityDecl)
  | enumDecl (decl : EnumDecl)
  | aliasDecl (decl : AliasDecl)
  | assign (targets : List Expr) (op : AssignOp) (values : List Expr) (span : Span)
  | ifChain (condition : Expr) (body : List Stmt) (elseifs : List ElseIf)
      (otherwise : Option (List Stmt)) (span : Span)
  | repeatLoop (iterator : Expr) (start skip : Option Expr) (counter : Option Ident)
      (body : List Stmt) (span : Span)
  | whileLoop (condition : Expr) (body : List Stmt) (span : Span)
  | forLoop (key value : Option Ident) (iterator : Expr) (body : List Stmt) (span : Span)
  | tick (counter : Option Ident) (body : List Stmt) (span : Span)
  | matching (subject : Expr) (arms : List MatchArm) (span : Span)
  | returning (values : List Expr) (span : Span)
  | yielding (values : List Expr) (span : Span)
  | breaking (span : Span)
  | continuing (span : Span)
  | destroy (target : Expr) (generics : List TypeExpr) (args : List Expr) (span : Span)
  | use (stmt : UseStmt)
  | expr (e : Expr)
  | error (span : Span)
end

/-- The top-level statements of one source file. -/
abbrev Program := List Stmt

/-! ## Positions -/

/-- The position of an expression. -/
def Expr.span : Expr → Span
  | .literal lit => lit.span
  | .ident id => id.span
  | .builtin id => id.span
  | .envAccess _ _ span => span
  | .unary _ _ span => span
  | .binary _ _ _ span => span
  | .group _ span => span
  | .list _ span => span
  | .map _ span => span
  | .call _ _ _ _ span => span
  | .methodCall _ _ _ _ _ _ _ span => span
  | .field _ _ _ span => span
  | .member _ _ span => span
  | .self _ span => span
  | .new _ _ _ span => span
  | .spawn _ _ _ span => span
  | .function _ _ _ span => span
  | .matching _ _ _ span => span
  | .entityTest _ _ _ _ _ span => span
  | .error span => span

/-- The position of a statement. -/
def Stmt.span : Stmt → Span
  | .env decl => decl.span
  | .variable decl => decl.span
  | .function decl => decl.span
  | .classDecl decl => decl.span
  | .entityDecl decl => decl.span
  | .enumDecl decl => decl.span
  | .aliasDecl decl => decl.span
  | .assign _ _ _ span => span
  | .ifChain _ _ _ _ span => span
  | .repeatLoop _ _ _ _ _ span => span
  | .whileLoop _ _ span => span
  | .forLoop _ _ _ _ span => span
  | .tick _ _ span => span
  | .matching _ _ span => span
  | .returning _ span => span
  | .yielding _ span => span
  | .breaking span => span
  | .continuing span => span
  | .destroy _ _ _ span => span
  | .use stmt => stmt.span
  | .expr e => e.span
  | .error span => span

/-! ## Parts of a tree -/

/-- The literal that an expression is, if it is one. -/
def Expr.literal? : Expr → Option Literal
  | .literal lit => some lit
  | _ => none

/-- The leading `env` declaration, if the program starts with one. -/
def Program.envDecl? : Program → Option EnvDecl
  | .env decl :: _ => some decl
  | _ => none

/-- The declaration that the file of a level starts with, without a position. -/
def Stmt.level (name : String) : Stmt :=
  .env ⟨⟨name, .synthetic⟩, ⟨"Level", .synthetic⟩, .synthetic⟩

end HybroidSema
