import HybroidSema.Tree

/-!
# Trees as they are written

A method call node is made by the walk itself, in the place of a call through a field. A tree
that comes from source text has none. Of the type declarations of a program the first one with a
name has it, whatever its kind.

* `Expr.isSource`, `Stmt.isSource` and the same for every list of parts.
* `Program.claimed?`: the kind of the declaration that has a type name.
* `Program.ownsContainers`: no class or entity has a name that a declaration of another kind
  has claimed before it.
-/

namespace HybroidSema

/-! ## Method call nodes -/

mutual
/-- No method call node is in the expression. -/
def Expr.isSource (e : Expr) : Bool :=
  match e with
  | .literal _ | .ident _ | .builtin _ | .envAccess _ _ _ | .self _ _ | .error _ => true
  | .unary _ operand _ => operand.isSource
  | .binary left _ right _ => left.isSource && right.isSource
  | .group inner _ => inner.isSource
  | .list elems _ => Expr.allSource elems
  | .map entries _ => MapEntry.allSource entries
  | .call caller _ args _ _ => caller.isSource && Expr.allSource args
  | .methodCall _ _ _ _ _ _ _ _ => false
  | .field target _ _ _ => target.isSource
  | .member target index _ => target.isSource && index.isSource
  | .new _ _ args _ => Expr.allSource args
  | .spawn _ _ args _ => Expr.allSource args
  | .function _ _ body _ => Stmt.allSource body
  | .matching subject arms _ _ => subject.isSource && MatchArm.allSource arms
  | .entityTest value _ _ _ _ _ => value.isSource
  termination_by structural e

/-- No method call node is in the expressions. -/
def Expr.allSource (es : List Expr) : Bool :=
  match es with
  | [] => true
  | e :: rest => e.isSource && Expr.allSource rest
  termination_by structural es

/-- No method call node is in the entries. -/
def MapEntry.allSource (es : List MapEntry) : Bool :=
  match es with
  | [] => true
  | ⟨_, e⟩ :: rest => e.isSource && MapEntry.allSource rest
  termination_by structural es

/-- No method call node is in the arms. -/
def MatchArm.allSource (arms : List MatchArm) : Bool :=
  match arms with
  | [] => true
  | ⟨patterns, _, body, _⟩ :: rest =>
    Expr.allSource patterns && Stmt.allSource body && MatchArm.allSource rest
  termination_by structural arms

/-- No method call node is in the optional expression. -/
def Expr.optionSource (e : Option Expr) : Bool :=
  match e with
  | none => true
  | some e => e.isSource
  termination_by structural e

/-- No method call node is in the initializers. -/
def VariableDecl.allSource (decls : List VariableDecl) : Bool :=
  match decls with
  | [] => true
  | ⟨_, _, values, _, _, _⟩ :: rest => Expr.allSource values && VariableDecl.allSource rest
  termination_by structural decls

/-- No method call node is in the bodies of the functions. -/
def FunctionDecl.allSource (decls : List FunctionDecl) : Bool :=
  match decls with
  | [] => true
  | ⟨_, _, _, _, body, _, _⟩ :: rest => Stmt.allSource body && FunctionDecl.allSource rest
  termination_by structural decls

/-- No method call node is in the body of the constructor. -/
def ConstructorDecl.optionSource (decl : Option ConstructorDecl) : Bool :=
  match decl with
  | none => true
  | some ⟨_, _, body, _⟩ => Stmt.allSource body
  termination_by structural decl

/-- No method call node is in the bodies of the lifecycle functions. -/
def LifecycleDecl.allSource (decls : List LifecycleDecl) : Bool :=
  match decls with
  | [] => true
  | ⟨_, _, _, _, body, _⟩ :: rest => Stmt.allSource body && LifecycleDecl.allSource rest
  termination_by structural decls

/-- No method call node is in the branches. -/
def ElseIf.allSource (branches : List ElseIf) : Bool :=
  match branches with
  | [] => true
  | ⟨condition, body, _⟩ :: rest =>
    condition.isSource && Stmt.allSource body && ElseIf.allSource rest
  termination_by structural branches

/-- No method call node is in the optional body. -/
def Stmt.optionSource (body : Option (List Stmt)) : Bool :=
  match body with
  | none => true
  | some body => Stmt.allSource body
  termination_by structural body

/-- No method call node is in the statements. -/
def Stmt.allSource (stmts : List Stmt) : Bool :=
  match stmts with
  | [] => true
  | s :: rest => s.isSource && Stmt.allSource rest
  termination_by structural stmts

/-- No method call node is in the statement. -/
def Stmt.isSource (s : Stmt) : Bool :=
  match s with
  | .env _ | .enumDecl _ | .aliasDecl _ | .breaking _ | .continuing _ | .use _ | .error _ => true
  | .variable ⟨_, _, values, _, _, _⟩ => Expr.allSource values
  | .function ⟨_, _, _, _, body, _, _⟩ => Stmt.allSource body
  | .classDecl ⟨_, _, fields, methods, constructor, _⟩ =>
    VariableDecl.allSource fields && FunctionDecl.allSource methods &&
      ConstructorDecl.optionSource constructor
  | .entityDecl ⟨_, _, fields, methods, functions, _⟩ =>
    VariableDecl.allSource fields && FunctionDecl.allSource methods &&
      LifecycleDecl.allSource functions
  | .assign targets _ values _ => Expr.allSource targets && Expr.allSource values
  | .ifChain condition body elseifs otherwise _ =>
    condition.isSource && Stmt.allSource body && ElseIf.allSource elseifs &&
      Stmt.optionSource otherwise
  | .repeatLoop iterator start skip _ body _ =>
    iterator.isSource && Expr.optionSource start && Expr.optionSource skip && Stmt.allSource body
  | .whileLoop condition body _ => condition.isSource && Stmt.allSource body
  | .forLoop _ _ iterator body _ => iterator.isSource && Stmt.allSource body
  | .tick _ body _ => Stmt.allSource body
  | .matching subject arms _ => subject.isSource && MatchArm.allSource arms
  | .returning values _ => Expr.allSource values
  | .yielding values _ => Expr.allSource values
  | .destroy target _ args _ => target.isSource && Expr.allSource args
  | .expr e => e.isSource
  termination_by structural s
end

/-! ## Type names -/

/-- The kinds of type declaration. -/
inductive TypeKind where
  | classDecl
  | entityDecl
  | enumDecl
  | aliasDecl
deriving DecidableEq, Repr

/-- The type name that a statement declares, with the kind of the declaration. -/
def Stmt.typeName? : Stmt → Option (String × TypeKind)
  | .classDecl decl => some (decl.name.name, .classDecl)
  | .entityDecl decl => some (decl.name.name, .entityDecl)
  | .enumDecl decl => some (decl.name.name, .enumDecl)
  | .aliasDecl decl => some (decl.name.name, .aliasDecl)
  | _ => none

/-- The kind that a statement declares a name as. -/
def Stmt.claims? (s : Stmt) (name : String) : Option TypeKind :=
  match s.typeName? with
  | some (declared, kind) => if declared = name then some kind else none
  | none => none

namespace Program

/-- The kind of the first type declaration of a name. -/
def claimed? (p : Program) (name : String) : Option TypeKind := p.findSome? (·.claims? name)

/-- The statement is no class or entity, or the first type declaration of its name is of the same
kind. -/
def ownsContainer (p : Program) (s : Stmt) : Bool :=
  match s.typeName? with
  | some (name, .classDecl) => p.claimed? name = some .classDecl
  | some (name, .entityDecl) => p.claimed? name = some .entityDecl
  | _ => true

/-- No class or entity of the program has a name that a declaration of another kind has claimed
before it. -/
def ownsContainers (p : Program) : Bool := p.all p.ownsContainer

end Program

end HybroidSema
