import HybroidSema.Alert.Basic
import HybroidSema.Proofs.Leaves

/-!
# Functions and match expressions of a program

The places of a program that must be left on every path, in the order in which a walk finishes
them: functions of every form, and match expressions. Whether one of them lacks an exit can be read
off its body.

A walk does not reach every function that is written. It leaves out the body of a class or entity
that does not have its name, or is not declared at the root, and where statements are removed it
leaves out what stands after a statement that leaves.

* `Form`, `Form.lacksExit` and `Form.missing`.
* `Expr.forms`, `Stmt.forms` and the same for every list of parts: by recursion on the tree.
* `ClassDecl.forms`, `EntityDecl.forms` and `Program.forms`: the top level.
-/

namespace HybroidSema

namespace Stmt

/-- Whether a body returns on every path. -/
def bodyReturns (stmts : List Stmt) : Bool := bodyLeaves { returns := true } stmts

end Stmt

/-! ## Forms -/

/-- A place that must be left on every path: a function with the return types that are written, or a
match expression with the exits that are permitted in its arms. -/
inductive Form where
  | function (returns : List TypeExpr) (body : List Stmt) (span : Span)
  | matching (permits : Permissions) (arms : List MatchArm) (span : Span)

namespace Form

/-- Whether some path lacks its exit: a function with return types must return, and every arm of a
match expression with an `else` arm must be left. -/
def lacksExit : Form → Bool
  | function returns stmts _ => !returns.isEmpty && !Stmt.bodyReturns stmts
  | matching permits arms _ => arms.any (·.isDefault) && !Stmt.armsLeave permits arms

/-- The report of a missing exit. -/
def alert : Form → Alert
  | function _ _ span => { kind := .notAllCodePathsExit "return", span := span }
  | matching _ _ span => { kind := .notAllCodePathsExit "yield", span := span }

/-- The reports of the missing exits of several forms. -/
def missing (forms : List Form) : List Alert := (forms.filter lacksExit).map alert

@[simp] theorem missing_nil : missing [] = [] := rfl

@[simp] theorem missing_append (forms others : List Form) :
    missing (forms ++ others) = missing forms ++ missing others := by
  simp [missing]

end Form

/-! ## The forms of a tree -/

mutual
/-- The forms in an expression where the exits in `p` are permitted. -/
def Expr.forms (prune : Bool) (p : Permissions) (e : Expr) : List Form :=
  match e with
  | .literal _ | .ident _ | .builtin _ | .envAccess _ _ _ | .self _ _ | .error _ => []
  | .unary _ operand _ => operand.forms prune p
  | .binary left _ right _ => left.forms prune p ++ right.forms prune p
  | .group inner _ => inner.forms prune p
  | .list elems _ => Expr.allForms prune p elems
  | .map entries _ => MapEntry.allForms prune p entries
  | .call caller _ args _ _ => caller.forms prune p ++ Expr.allForms prune p args
  | .methodCall receiver _ _ _ _ args _ _ => receiver.forms prune p ++ Expr.allForms prune p args
  | .field target _ _ _ => target.forms prune p
  | .member target index _ => target.forms prune p ++ index.forms prune p
  | .new _ _ args _ => Expr.allForms prune p args
  | .spawn _ _ args _ => Expr.allForms prune p args
  | .function _ returns stmts span =>
    Stmt.bodyForms prune { returns := true } stmts ++ [.function returns stmts span]
  | .matching subject arms _ span =>
    subject.forms prune p ++ MatchArm.allForms prune { p with yields := true } arms ++
      [.matching { p with yields := true } arms span]
  | .entityTest value _ _ _ _ _ => value.forms prune p
  termination_by structural e

/-- The forms in a list of expressions. -/
def Expr.allForms (prune : Bool) (p : Permissions) (es : List Expr) : List Form :=
  match es with
  | [] => []
  | e :: rest => e.forms prune p ++ Expr.allForms prune p rest
  termination_by structural es

/-- The forms in an expression that may be left out. -/
def Expr.optionForms (prune : Bool) (p : Permissions) (e : Option Expr) : List Form :=
  match e with
  | none => []
  | some e => e.forms prune p
  termination_by structural e

/-- The forms in the entries of a map. -/
def MapEntry.allForms (prune : Bool) (p : Permissions) (es : List MapEntry) : List Form :=
  match es with
  | [] => []
  | ⟨_, e⟩ :: rest => e.forms prune p ++ MapEntry.allForms prune p rest
  termination_by structural es

/-- The forms in the arms of a match. The `else` arm has no patterns. -/
def MatchArm.allForms (prune : Bool) (p : Permissions) (arms : List MatchArm) : List Form :=
  match arms with
  | [] => []
  | ⟨pats, isDefault, stmts, _⟩ :: rest =>
    (if isDefault then [] else Expr.allForms prune p pats) ++ Stmt.bodyForms prune p stmts ++
      MatchArm.allForms prune p rest
  termination_by structural arms

/-- The forms in a statement below the root, where no class or entity is declared. -/
def Stmt.forms (prune : Bool) (p : Permissions) (s : Stmt) : List Form :=
  match s with
  | .env _ | .classDecl _ | .entityDecl _ | .enumDecl _ | .aliasDecl _ | .breaking _
  | .continuing _ | .use _ | .error _ => []
  | .variable ⟨_, _, values, _, _, _⟩ => Expr.allForms prune p values
  | .function ⟨_, _, _, returns, stmts, _, span⟩ =>
    Stmt.bodyForms prune { returns := true } stmts ++ [.function returns stmts span]
  | .assign targets _ values _ => Expr.allForms prune p targets ++ Expr.allForms prune p values
  | .ifChain condition stmts elseifs otherwise _ =>
    condition.forms prune p ++ Stmt.bodyForms prune p stmts ++ ElseIf.allForms prune p elseifs ++
      Stmt.elseForms prune p otherwise
  | .repeatLoop iterator start skip _ stmts _ =>
    iterator.forms prune p ++ Expr.optionForms prune p start ++ Expr.optionForms prune p skip ++
      Stmt.bodyForms prune (p.union .ofLoop) stmts
  | .whileLoop condition stmts _ =>
    condition.forms prune p ++ Stmt.bodyForms prune (p.union .ofLoop) stmts
  | .forLoop _ _ iterator stmts _ =>
    iterator.forms prune p ++ Stmt.bodyForms prune (p.union .ofLoop) stmts
  | .tick _ stmts _ => Stmt.bodyForms prune p stmts
  | .matching subject arms _ => subject.forms prune p ++ MatchArm.allForms prune p arms
  | .returning values _ => Expr.allForms prune p values
  | .yielding values _ => Expr.allForms prune p values
  | .destroy target _ args _ => target.forms prune p ++ Expr.allForms prune p args
  | .expr e => e.forms prune p
  termination_by structural s

/-- The forms in a body. Where statements are removed, there are none after a statement that
leaves. -/
def Stmt.bodyForms (prune : Bool) (p : Permissions) (stmts : List Stmt) : List Form :=
  match stmts with
  | [] => []
  | first :: rest =>
    first.forms prune p ++ if prune && first.leaves p then [] else Stmt.bodyForms prune p rest
  termination_by structural stmts

/-- The forms in the `elseif` branches of a chain. -/
def ElseIf.allForms (prune : Bool) (p : Permissions) (branches : List ElseIf) : List Form :=
  match branches with
  | [] => []
  | ⟨condition, stmts, _⟩ :: rest =>
    condition.forms prune p ++ Stmt.bodyForms prune p stmts ++ ElseIf.allForms prune p rest
  termination_by structural branches

/-- The forms in the `else` branch of a chain. -/
def Stmt.elseForms (prune : Bool) (p : Permissions) (otherwise : Option (List Stmt)) :
    List Form :=
  match otherwise with
  | none => []
  | some stmts => Stmt.bodyForms prune p stmts
  termination_by structural otherwise
end

/-! ## The top level -/

/-- The forms in a function, and then the function itself. -/
def FunctionDecl.forms (prune : Bool) (decl : FunctionDecl) : List Form :=
  Stmt.bodyForms prune { returns := true } decl.body ++ [.function decl.returns decl.body decl.span]

/-- The forms in a constructor, which has no return types. -/
def ConstructorDecl.forms (prune : Bool) (decl : ConstructorDecl) : List Form :=
  Stmt.bodyForms prune { returns := true } decl.body ++ [.function [] decl.body decl.span]

/-- The forms in a lifecycle function, and then the function itself. -/
def LifecycleDecl.forms (prune : Bool) (decl : LifecycleDecl) : List Form :=
  Stmt.bodyForms prune { returns := true } decl.body ++ [.function decl.returns decl.body decl.span]

/-- The forms in the initializers of fields. -/
def VariableDecl.forms (prune : Bool) (decls : List VariableDecl) : List Form :=
  decls.flatMap fun decl => Expr.allForms prune {} decl.values

/-- The forms in a class. -/
def ClassDecl.forms (prune : Bool) (decl : ClassDecl) : List Form :=
  VariableDecl.forms prune decl.fields ++ decl.constructor.toList.flatMap (·.forms prune) ++
    decl.methods.flatMap (·.forms prune)

/-- The lifecycle functions with the first spawn function in front. -/
def LifecycleDecl.spawnFirst (decls : List LifecycleDecl) : List LifecycleDecl :=
  (decls.find? (·.kind == .spawn)).toList ++ decls.eraseP (·.kind == .spawn)

/-- The forms in an entity. -/
def EntityDecl.forms (prune : Bool) (decl : EntityDecl) : List Form :=
  VariableDecl.forms prune decl.fields ++
    (LifecycleDecl.spawnFirst decl.functions).flatMap (·.forms prune) ++
    decl.methods.flatMap (·.forms prune)

/-- The type name that a statement declares. -/
def Stmt.typeIdent? : Stmt → Option Ident
  | .classDecl decl => some decl.name
  | .entityDecl decl => some decl.name
  | .enumDecl decl => some decl.name
  | .aliasDecl decl => some decl.name
  | _ => none

namespace Program

/-- The first type declaration of a name. -/
def type? (p : Program) (name : String) : Option Ident :=
  (p.filterMap Stmt.typeIdent?).find? (·.name == name)

/-- Whether the type declaration of a name at a position is the one that has the name. -/
def owns (p : Program) (name : Ident) : Bool := p.type? name.name == some name

/-- The forms in a statement at the root. A class or entity that does not have its name is not
walked. -/
def rootForms (prune : Bool) (p : Program) : Stmt → List Form
  | .classDecl decl => if p.owns decl.name then decl.forms prune else []
  | .entityDecl decl => if p.owns decl.name then decl.forms prune else []
  | stmt => stmt.forms prune {}

/-- The forms that a walk of the program reaches, in the order in which it finishes them. -/
def forms (prune : Bool) (p : Program) : List Form := p.flatMap (p.rootForms prune)

end Program

end HybroidSema
