import HybroidSema.Proofs.Links
import HybroidSema.Proofs.QualifiedNames

/-!
# Access

A qualified name in a resolved tree names an environment and something that is declared there. What
is needed for that is the business of the environment that has the tree: the other environment is
required, and what it declares is public.

* `Access`, `Expr.accesses` and `Stmt.accesses`: the qualified names of a tree.
* `Registry.HasItem` and `Registry.Permits`: what an environment may name.
* `Registry.Lasts.permits`: it may do so later, too.
-/

namespace HybroidSema

/-! ## Qualified names of a tree -/

/-- A qualified name: an environment, and a name there. -/
structure Access where
  env : Ident
  name : Ident

mutual
/-- The qualified names of an expression. -/
def Expr.accesses (e : Expr) : List Access :=
  match e with
  | .literal _ | .ident _ | .builtin _ | .self _ _ | .error _ => []
  | .envAccess env name _ => [⟨env, name⟩]
  | .unary _ operand _ => operand.accesses
  | .binary left _ right _ => left.accesses ++ right.accesses
  | .group inner _ => inner.accesses
  | .list elems _ => Expr.allAccesses elems
  | .map entries _ => MapEntry.allAccesses entries
  | .call caller _ args _ _ => caller.accesses ++ Expr.allAccesses args
  | .methodCall receiver _ _ _ _ args _ _ => receiver.accesses ++ Expr.allAccesses args
  | .field target _ _ _ => target.accesses
  | .member target index _ => target.accesses ++ index.accesses
  | .new _ _ args _ => Expr.allAccesses args
  | .spawn _ _ args _ => Expr.allAccesses args
  | .function _ _ body _ => Stmt.allAccesses body
  | .matching subject arms _ _ => subject.accesses ++ MatchArm.allAccesses arms
  | .entityTest value _ _ _ _ _ => value.accesses
  termination_by structural e

/-- The qualified names of expressions. -/
def Expr.allAccesses (es : List Expr) : List Access :=
  match es with
  | [] => []
  | e :: rest => e.accesses ++ Expr.allAccesses rest
  termination_by structural es

/-- The qualified names of entries. -/
def MapEntry.allAccesses (es : List MapEntry) : List Access :=
  match es with
  | [] => []
  | ⟨_, e⟩ :: rest => e.accesses ++ MapEntry.allAccesses rest
  termination_by structural es

/-- The qualified names of arms. An `else` arm has no patterns. -/
def MatchArm.allAccesses (arms : List MatchArm) : List Access :=
  match arms with
  | [] => []
  | ⟨patterns, isDefault, body, _⟩ :: rest =>
    (if isDefault then [] else Expr.allAccesses patterns) ++ Stmt.allAccesses body ++
      MatchArm.allAccesses rest
  termination_by structural arms

/-- The qualified names of an optional expression. -/
def Expr.optionAccesses (e : Option Expr) : List Access :=
  match e with
  | none => []
  | some e => e.accesses
  termination_by structural e

/-- The qualified names of initializers. -/
def VariableDecl.allAccesses (decls : List VariableDecl) : List Access :=
  match decls with
  | [] => []
  | ⟨_, _, values, _, _, _⟩ :: rest =>
    Expr.allAccesses values ++ VariableDecl.allAccesses rest
  termination_by structural decls

/-- The qualified names of the bodies of functions. -/
def FunctionDecl.allAccesses (decls : List FunctionDecl) : List Access :=
  match decls with
  | [] => []
  | ⟨_, _, _, _, body, _, _⟩ :: rest =>
    Stmt.allAccesses body ++ FunctionDecl.allAccesses rest
  termination_by structural decls

/-- The qualified names of the body of a constructor. -/
def ConstructorDecl.optionAccesses (decl : Option ConstructorDecl) : List Access :=
  match decl with
  | none => []
  | some ⟨_, _, body, _⟩ => Stmt.allAccesses body
  termination_by structural decl

/-- The qualified names of the bodies of lifecycle functions. -/
def LifecycleDecl.allAccesses (decls : List LifecycleDecl) : List Access :=
  match decls with
  | [] => []
  | ⟨_, _, _, _, body, _⟩ :: rest => Stmt.allAccesses body ++ LifecycleDecl.allAccesses rest
  termination_by structural decls

/-- The qualified names of branches. -/
def ElseIf.allAccesses (branches : List ElseIf) : List Access :=
  match branches with
  | [] => []
  | ⟨condition, body, _⟩ :: rest =>
    condition.accesses ++ Stmt.allAccesses body ++ ElseIf.allAccesses rest
  termination_by structural branches

/-- The qualified names of an optional body. -/
def Stmt.optionAccesses (body : Option (List Stmt)) : List Access :=
  match body with
  | none => []
  | some body => Stmt.allAccesses body
  termination_by structural body

/-- The qualified names of statements. -/
def Stmt.allAccesses (stmts : List Stmt) : List Access :=
  match stmts with
  | [] => []
  | s :: rest => s.accesses ++ Stmt.allAccesses rest
  termination_by structural stmts

/-- The qualified names of a statement. -/
def Stmt.accesses (s : Stmt) : List Access :=
  match s with
  | .env _ | .enumDecl _ | .aliasDecl _ | .breaking _ | .continuing _ | .use _ | .error _ => []
  | .variable ⟨_, _, values, _, _, _⟩ => Expr.allAccesses values
  | .function ⟨_, _, _, _, body, _, _⟩ => Stmt.allAccesses body
  | .classDecl ⟨_, _, fields, methods, constructor, _⟩ =>
    VariableDecl.allAccesses fields ++ FunctionDecl.allAccesses methods ++
      ConstructorDecl.optionAccesses constructor
  | .entityDecl ⟨_, _, fields, methods, functions, _⟩ =>
    VariableDecl.allAccesses fields ++ FunctionDecl.allAccesses methods ++
      LifecycleDecl.allAccesses functions
  | .assign targets _ values _ => Expr.allAccesses targets ++ Expr.allAccesses values
  | .ifChain condition body elseifs otherwise _ =>
    condition.accesses ++ Stmt.allAccesses body ++ ElseIf.allAccesses elseifs ++
      Stmt.optionAccesses otherwise
  | .repeatLoop iterator start skip _ body _ =>
    iterator.accesses ++ Expr.optionAccesses start ++ Expr.optionAccesses skip ++
      Stmt.allAccesses body
  | .whileLoop condition body _ => condition.accesses ++ Stmt.allAccesses body
  | .forLoop _ _ iterator body _ => iterator.accesses ++ Stmt.allAccesses body
  | .tick _ body _ => Stmt.allAccesses body
  | .matching subject arms _ => subject.accesses ++ MatchArm.allAccesses arms
  | .returning values _ => Expr.allAccesses values
  | .yielding values _ => Expr.allAccesses values
  | .destroy target _ args _ => target.accesses ++ Expr.allAccesses args
  | .expr e => e.accesses
  termination_by structural s
end

/-! ## What may be named -/

/-- Whether an item is public. -/
def Item.isPub : Item → Bool
  | .variable v => v.isPub
  | .enum info => info.isPub

namespace Registry

variable {r r' : Registry} {source target : EnvId} {name : String}

/-- An environment or library declares an item under a name. A variable and an enum may share it. -/
inductive HasItem (r : Registry) (target : EnvId) (name : String) : Item → Prop
  | ofVariable {v : Variable} (h : r.variableOf? target name = some v) :
    HasItem r target name (.variable v)
  | ofEnum {info : EnumInfo} (h : r.enum? ⟨target, name⟩ = some info) :
    HasItem r target name (.enum info)

/-- An environment may use a qualified name: the name stands for the environment itself or for one
that it requires, and what is declared there is its own or public. -/
def Permits (r : Registry) (source : EnvId) (access : Access) : Prop :=
  ∃ target item, r.lookup? access.env.name = some target ∧
    (target = source ∨ r.Requires source target) ∧ r.HasItem target access.name.name item ∧
    (target ≠ source → item.isPub = true)

theorem Lasts.hasItem (h : r.Lasts r') {item : Item} (hitem : r.HasItem target name item) :
    ∃ item', r'.HasItem target name item' ∧ item'.isPub = item.isPub := by
  cases hitem with
  | ofVariable hv =>
    unfold variableOf? at hv
    cases hlibrary : target.library? with
    | some library =>
      rw [hlibrary] at hv
      exact ⟨_, .ofVariable (by rw [variableOf?, hlibrary]; exact hv), rfl⟩
    | none =>
      rw [hlibrary] at hv
      obtain ⟨env, henv, hroot⟩ := Option.bind_eq_some_iff.1 hv
      obtain ⟨env', henv', hlasts⟩ := h.envs target env henv
      obtain ⟨v', hv', hpub⟩ := hlasts.rootVariable? hroot
      exact ⟨.variable v', .ofVariable (by rw [variableOf?, hlibrary, henv']; exact hv'), hpub⟩
  | ofEnum hinfo =>
    unfold enum? at hinfo
    cases hlibrary : target.library? with
    | some library =>
      rw [hlibrary] at hinfo
      exact ⟨_, .ofEnum (by rw [enum?, hlibrary]; exact hinfo), rfl⟩
    | none =>
      rw [hlibrary] at hinfo
      obtain ⟨env, henv, henum⟩ := Option.bind_eq_some_iff.1 hinfo
      obtain ⟨env', henv', hlasts⟩ := h.envs target env henv
      exact ⟨_, .ofEnum (by rw [enum?, hlibrary, henv']; exact hlasts.enums name _ henum), rfl⟩

/-- What an environment may name stays so. -/
theorem Lasts.permits (h : r.Lasts r') {access : Access} (hpermits : r.Permits source access) :
    r'.Permits source access := by
  obtain ⟨target, item, hlookup, hrequires, hitem, hpub⟩ := hpermits
  obtain ⟨item', hitem', hsame⟩ := h.hasItem hitem
  exact ⟨target, item', (h.lookup? _).trans hlookup, hrequires.imp_right h.requires, hitem',
    fun hne => hsame.trans (hpub hne)⟩

end Registry

end HybroidSema
