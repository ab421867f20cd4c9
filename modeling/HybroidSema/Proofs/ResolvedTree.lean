import HybroidSema.Proofs.Replacements

/-!
# Resolved trees

A resolved tree has the nodes of the tree that was walked, each in its place. A name, a qualified
name, a field of an enum or a call of a method may be replaced, annotations are set, and what was
left out of a `repeat`, a `for` or a typed declaration is filled in. If the walk prunes, a body ends
after the statement that leaves it for certain. Nothing else is changed, moved or lost.

* `Tour`: a walk over a tree, as the calls of the recursion that it comes to.
* `Expr.Becomes`, `Stmt.Becomes` and the others: what each node becomes.
* `Expr.Becomes.span_eq` and `Expr.Becomes.isError_eq`: every node stays where it was, and an error
  is one that was there before.

That a walk resolves trees this way is shown in `HybroidSema.Proofs.ResolvedRuns`.
-/

namespace HybroidSema

open Check

/-! ## What a node becomes -/

/-- A walk over a tree: the calls of the recursion that it comes to, each with the state in which it
does, and whether it removes what stands after a certain exit. -/
structure Tour where
  context : Context
  prune : Bool
  reached : Task → State → Prop

/-- The key of a `for` is kept, or made up if none is written. -/
inductive KeyBecomes (span : Span) : Option Ident → Ident → Prop
  | kept (key : Ident) : KeyBecomes span (some key) key
  | invented (count : Nat) : KeyBecomes span none ⟨"__key" ++ toString count, span⟩

/-- A statement after which the walk leaves the scope for certain. -/
def Tour.LeavesAfter (w : Tour) (st st' : Stmt) : Prop :=
  ∃ s t env, w.reached (.stmt st) s ∧ stmt st w.context s = .ok (st', t) ∧
    t.own? w.context = some env ∧ env.scopes.current.exits.always = true

mutual
/-- What an expression becomes in a walk. -/
inductive Expr.Becomes (w : Tour) : Expr → Expr → Prop
  | literal (lit : Literal) : Expr.Becomes w (.literal lit) (.literal lit)
  | ident {id : Ident} {hint : Option Ty} {s : State} {e : Expr} {value : Value}
      (h : w.reached (.expr (.ident id) hint) s) (hname : StandsFor w.context s id e value) :
    Expr.Becomes w (.ident id) e
  | builtin (id : Ident) : Expr.Becomes w (.builtin id) (.builtin id)
  | envAccess (env name : Ident) (span : Span) :
    Expr.Becomes w (.envAccess env name span) (.envAccess env name span)
  | inlined {env name : Ident} {span : Span} {hint : Option Ty} {s : State} {lit : Literal}
      (h : w.reached (.expr (.envAccess env name span) hint) s)
      (hlit : InlinedFrom w.context s env name span lit) :
    Expr.Becomes w (.envAccess env name span) (.literal { lit with span := span })
  | unary {op : UnaryOp} {operand operand' : Expr} {span : Span}
      (h : Expr.Becomes w operand operand') :
    Expr.Becomes w (.unary op operand span) (.unary op operand' span)
  | binary {left left' : Expr} {op : BinaryOp} {right right' : Expr} {span : Span}
      (hleft : Expr.Becomes w left left') (hright : Expr.Becomes w right right') :
    Expr.Becomes w (.binary left op right span) (.binary left' op right' span)
  | group {inner inner' : Expr} {span : Span} (h : Expr.Becomes w inner inner') :
    Expr.Becomes w (.group inner span) (.group inner' span)
  | list {elems elems' : List Expr} {span : Span}
      (h : List.Forall₂ (Expr.Becomes w) elems elems') :
    Expr.Becomes w (.list elems span) (.list elems' span)
  | map {entries entries' : List MapEntry} {span : Span}
      (h : List.Forall₂ (MapEntry.Becomes w) entries entries') :
    Expr.Becomes w (.map entries span) (.map entries' span)
  | call {caller caller' : Expr} {generics : List TypeExpr} {args args' : List Expr}
      {amount amount' : Nat} {span : Span} (hcaller : Expr.Becomes w caller caller')
      (hargs : List.Forall₂ (Expr.Becomes w) args args') :
    Expr.Becomes w (.call caller generics args amount span)
      (.call caller' generics args' amount' span)
  | called {caller receiver : Expr} {method : Ident} {index : Option Nat} {span' : Span}
      {generics : List TypeExpr} {args args' : List Expr} {amount amount' : Nat} {span : Span}
      {owner : DeclRef} {kind : NamedKind} {hint : Option Ty} {s : State}
      (hcaller : Expr.Becomes w caller (.field receiver method index span'))
      (hargs : List.Forall₂ (Expr.Becomes w) args args')
      (h : w.reached (.expr (.call caller generics args amount span) hint) s)
      (howner : Rewrites w.context s caller ⟨receiver, owner, kind, method, span⟩) :
    Expr.Becomes w (.call caller generics args amount span)
      (.methodCall receiver owner kind method generics args' amount' span)
  | methodCall {receiver receiver' : Expr} {owner : DeclRef} {kind : NamedKind} {method : Ident}
      {generics : List TypeExpr} {args args' : List Expr} {amount amount' : Nat} {span : Span}
      (hreceiver : Expr.Becomes w receiver receiver')
      (hargs : List.Forall₂ (Expr.Becomes w) args args') :
    Expr.Becomes w (.methodCall receiver owner kind method generics args amount span)
      (.methodCall receiver' owner kind method generics args' amount' span)
  | ownerless {receiver receiver' : Expr} {owner : DeclRef} {kind : NamedKind} {method : Ident}
      {generics : List TypeExpr} {args : List Expr} {amount : Nat} {span : Span}
      (hreceiver : Expr.Becomes w receiver receiver') :
    Expr.Becomes w (.methodCall receiver owner kind method generics args amount span)
      (.methodCall receiver' owner kind method generics args amount span)
  | field {target target' : Expr} {field : Ident} {index index' : Option Nat} {span : Span}
      (h : Expr.Becomes w target target') (hindex : index' = index ∨ index'.isSome) :
    Expr.Becomes w (.field target field index span) (.field target' field index' span)
  | number {target : Expr} {field : Ident} {index : Option Nat} {span : Span} {hint : Option Ty}
      {s : State} {number : Nat} (h : w.reached (.expr (.field target field index span) hint) s)
      (hnumber : NumberOf w.context s target field number) :
    Expr.Becomes w (.field target field index span) (.literal ⟨.number, toString number, span⟩)
  | member {target target' index index' : Expr} {span : Span}
      (htarget : Expr.Becomes w target target') (hindex : Expr.Becomes w index index') :
    Expr.Becomes w (.member target index span) (.member target' index' span)
  | self {owner owner' : Option NamedKind} {span : Span} (howner : owner' = owner ∨ owner'.isSome) :
    Expr.Becomes w (.self owner span) (.self owner' span)
  | new {ty : TypeExpr} {generics : List TypeExpr} {args args' : List Expr} {span : Span}
      (h : List.Forall₂ (Expr.Becomes w) args args') :
    Expr.Becomes w (.new ty generics args span) (.new ty generics args' span)
  | spawn {ty : TypeExpr} {generics : List TypeExpr} {args args' : List Expr} {span : Span}
      (h : List.Forall₂ (Expr.Becomes w) args args') :
    Expr.Becomes w (.spawn ty generics args span) (.spawn ty generics args' span)
  | function {params : List Param} {returns : List TypeExpr} {body body' : List Stmt} {span : Span}
      (h : Stmt.BodyBecomes w body body') :
    Expr.Becomes w (.function params returns body span) (.function params returns body' span)
  | matching {subject subject' : Expr} {arms arms' : List MatchArm} {amount amount' : Nat}
      {span : Span} (hsubject : Expr.Becomes w subject subject')
      (harms : List.Forall₂ (MatchArm.Becomes w) arms arms') :
    Expr.Becomes w (.matching subject arms amount span) (.matching subject' arms' amount' span)
  | entityTest {value value' : Expr} {ty : TypeExpr} {binding : Option Ident}
      {negated official official' : Bool} {span : Span} (h : Expr.Becomes w value value')
      (hofficial : official = true → official' = true) :
    Expr.Becomes w (.entityTest value ty binding negated official span)
      (.entityTest value' ty binding negated official' span)
  | error (span : Span) : Expr.Becomes w (.error span) (.error span)

/-- What an entry of a map becomes. -/
inductive MapEntry.Becomes (w : Tour) : MapEntry → MapEntry → Prop
  | entry {key : Ident} {value value' : Expr} (h : Expr.Becomes w value value') :
    MapEntry.Becomes w ⟨key, value⟩ ⟨key, value'⟩

/-- What an arm of a match becomes. The patterns of an `else` arm are not walked. -/
inductive MatchArm.Becomes (w : Tour) : MatchArm → MatchArm → Prop
  | case {patterns patterns' : List Expr} {body body' : List Stmt} {span : Span}
      (hpatterns : List.Forall₂ (Expr.Becomes w) patterns patterns')
      (hbody : Stmt.BodyBecomes w body body') :
    MatchArm.Becomes w ⟨patterns, false, body, span⟩ ⟨patterns', false, body', span⟩
  | default {patterns : List Expr} {body body' : List Stmt} {span : Span}
      (hbody : Stmt.BodyBecomes w body body') :
    MatchArm.Becomes w ⟨patterns, true, body, span⟩ ⟨patterns, true, body', span⟩

/-- What a declaration of variables or fields becomes, if it has values. -/
inductive VariableDecl.Becomes (w : Tour) : VariableDecl → VariableDecl → Prop
  | values {names : List Ident} {ty : Option TypeExpr} {values values' : List Expr}
      {isPub isConst : Bool} {span : Span} (h : List.Forall₂ (Expr.Becomes w) values values') :
    VariableDecl.Becomes w ⟨names, ty, values, isPub, isConst, span⟩
      ⟨names, ty, values', isPub, isConst, span⟩

/-- What a function or method becomes. -/
inductive FunctionDecl.Becomes (w : Tour) : FunctionDecl → FunctionDecl → Prop
  | body {name : Ident} {generics : List Ident} {params : List Param} {returns : List TypeExpr}
      {body body' : List Stmt} {isPub : Bool} {span : Span} (h : Stmt.BodyBecomes w body body') :
    FunctionDecl.Becomes w ⟨name, generics, params, returns, body, isPub, span⟩
      ⟨name, generics, params, returns, body', isPub, span⟩

/-- What a constructor becomes. One that was not registered is not walked. -/
inductive ConstructorDecl.Becomes (w : Tour) : ConstructorDecl → ConstructorDecl → Prop
  | body {generics : List Ident} {params : List Param} {body body' : List Stmt} {span : Span}
      (h : Stmt.BodyBecomes w body body') :
    ConstructorDecl.Becomes w ⟨generics, params, body, span⟩ ⟨generics, params, body', span⟩
  | kept (decl : ConstructorDecl) : ConstructorDecl.Becomes w decl decl

/-- What a lifecycle function becomes. -/
inductive LifecycleDecl.Becomes (w : Tour) : LifecycleDecl → LifecycleDecl → Prop
  | body {kind : LifecycleKind} {generics : List Ident} {params : List Param}
      {returns : List TypeExpr} {body body' : List Stmt} {span : Span}
      (h : Stmt.BodyBecomes w body body') :
    LifecycleDecl.Becomes w ⟨kind, generics, params, returns, body, span⟩
      ⟨kind, generics, params, returns, body', span⟩

/-- What an `elseif` branch becomes. -/
inductive ElseIf.Becomes (w : Tour) : ElseIf → ElseIf → Prop
  | branch {condition condition' : Expr} {body body' : List Stmt} {span : Span}
      (hcondition : Expr.Becomes w condition condition') (hbody : Stmt.BodyBecomes w body body') :
    ElseIf.Becomes w ⟨condition, body, span⟩ ⟨condition', body', span⟩

/-- What the start or the step of a `repeat` at a position becomes. -/
inductive Expr.PartBecomes (w : Tour) : Span → Option Expr → Expr → Prop
  | written {e e' : Expr} {span : Span} (h : Expr.Becomes w e e') :
    Expr.PartBecomes w span (some e) e'
  | filled (ty : Ty) (span : Span) : Expr.PartBecomes w span none (ty.unitLiteral span)

/-- What a body becomes. It ends after a statement that leaves it for certain, if the walk prunes. -/
inductive Stmt.BodyBecomes (w : Tour) : List Stmt → List Stmt → Prop
  | nil : Stmt.BodyBecomes w [] []
  | cons {first first' : Stmt} {rest rest' : List Stmt} (hfirst : Stmt.Becomes w first first')
      (hrest : Stmt.BodyBecomes w rest rest') :
    Stmt.BodyBecomes w (first :: rest) (first' :: rest')
  | cut {first first' : Stmt} {rest : List Stmt} (hfirst : Stmt.Becomes w first first')
      (hleaves : w.LeavesAfter first first') (hprune : w.prune = true) :
    Stmt.BodyBecomes w (first :: rest) [first']

/-- What a statement becomes. -/
inductive Stmt.Becomes (w : Tour) : Stmt → Stmt → Prop
  | env (decl : EnvDecl) : Stmt.Becomes w (.env decl) (.env decl)
  | declared {decl decl' : VariableDecl} (h : VariableDecl.Becomes w decl decl') :
    Stmt.Becomes w (.variable decl) (.variable decl')
  | defaults {names : List Ident} {written : TypeExpr} {isPub isConst : Bool} {span : Span}
      {s s₁ t : State} {ty : Ty}
      (h : w.reached (.stmt (.variable ⟨names, some written, [], isPub, isConst, span⟩)) s)
      (hsession : s₁.session = s.session) (hty : resolveType written w.context s₁ = .ok (ty, t)) :
    Stmt.Becomes w (.variable ⟨names, some written, [], isPub, isConst, span⟩)
      (.variable ⟨names, some written, names.filterMap (ty.defaultLiteral? ·.span), isPub, isConst,
        span⟩)
  | function {decl decl' : FunctionDecl} (h : FunctionDecl.Becomes w decl decl') :
    Stmt.Becomes w (.function decl) (.function decl')
  | classDecl {name : Ident} {isPub : Bool} {fields fields' : List VariableDecl}
      {methods methods' : List FunctionDecl} {constructor constructor' : Option ConstructorDecl}
      {span : Span} (hfields : List.Forall₂ (VariableDecl.Becomes w) fields fields')
      (hmethods : List.Forall₂ (FunctionDecl.Becomes w) methods methods')
      (hconstructor : Option.Rel (ConstructorDecl.Becomes w) constructor constructor') :
    Stmt.Becomes w (.classDecl ⟨name, isPub, fields, methods, constructor, span⟩)
      (.classDecl ⟨name, isPub, fields', methods', constructor', span⟩)
  | entityDecl {name : Ident} {isPub : Bool} {fields fields' : List VariableDecl}
      {methods methods' : List FunctionDecl} {functions functions' : List LifecycleDecl}
      {span : Span} (hfields : List.Forall₂ (VariableDecl.Becomes w) fields fields')
      (hmethods : List.Forall₂ (FunctionDecl.Becomes w) methods methods')
      (hfunctions : List.Forall₂ (LifecycleDecl.Becomes w) functions functions') :
    Stmt.Becomes w (.entityDecl ⟨name, isPub, fields, methods, functions, span⟩)
      (.entityDecl ⟨name, isPub, fields', methods', functions', span⟩)
  | classKept (decl : ClassDecl) : Stmt.Becomes w (.classDecl decl) (.classDecl decl)
  | entityKept (decl : EntityDecl) : Stmt.Becomes w (.entityDecl decl) (.entityDecl decl)
  | enumDecl (decl : EnumDecl) : Stmt.Becomes w (.enumDecl decl) (.enumDecl decl)
  | aliasDecl (decl : AliasDecl) : Stmt.Becomes w (.aliasDecl decl) (.aliasDecl decl)
  | assign {targets targets' : List Expr} {op : AssignOp} {values values' : List Expr} {span : Span}
      (htargets : List.Forall₂ (Expr.Becomes w) targets targets')
      (hvalues : List.Forall₂ (Expr.Becomes w) values values') :
    Stmt.Becomes w (.assign targets op values span) (.assign targets' op values' span)
  | ifChain {condition condition' : Expr} {body body' : List Stmt} {elseifs elseifs' : List ElseIf}
      {otherwise otherwise' : Option (List Stmt)} {span : Span}
      (hcondition : Expr.Becomes w condition condition') (hbody : Stmt.BodyBecomes w body body')
      (helseifs : List.Forall₂ (ElseIf.Becomes w) elseifs elseifs')
      (hotherwise : Option.Rel (Stmt.BodyBecomes w) otherwise otherwise') :
    Stmt.Becomes w (.ifChain condition body elseifs otherwise span)
      (.ifChain condition' body' elseifs' otherwise' span)
  | repeatLoop {iterator iterator' : Expr} {start skip : Option Expr} {start' skip' : Expr}
      {counter : Option Ident} {body body' : List Stmt} {span : Span}
      (hiterator : Expr.Becomes w iterator iterator')
      (hstart : Expr.PartBecomes w span start start') (hskip : Expr.PartBecomes w span skip skip')
      (hbody : Stmt.BodyBecomes w body body') :
    Stmt.Becomes w (.repeatLoop iterator start skip counter body span)
      (.repeatLoop iterator' (some start') (some skip') counter body' span)
  | whileLoop {condition condition' : Expr} {body body' : List Stmt} {span : Span}
      (hcondition : Expr.Becomes w condition condition') (hbody : Stmt.BodyBecomes w body body') :
    Stmt.Becomes w (.whileLoop condition body span) (.whileLoop condition' body' span)
  | forLoop {key value : Option Ident} {key' : Ident} {iterator iterator' : Expr}
      {body body' : List Stmt} {span : Span} (hkey : KeyBecomes span key key')
      (hiterator : Expr.Becomes w iterator iterator') (hbody : Stmt.BodyBecomes w body body') :
    Stmt.Becomes w (.forLoop key value iterator body span)
      (.forLoop (some key') value iterator' body' span)
  | tick {counter : Option Ident} {body body' : List Stmt} {span : Span}
      (h : Stmt.BodyBecomes w body body') :
    Stmt.Becomes w (.tick counter body span) (.tick counter body' span)
  | matching {subject subject' : Expr} {arms arms' : List MatchArm} {span : Span}
      (hsubject : Expr.Becomes w subject subject')
      (harms : List.Forall₂ (MatchArm.Becomes w) arms arms') :
    Stmt.Becomes w (.matching subject arms span) (.matching subject' arms' span)
  | returning {values values' : List Expr} {span : Span}
      (h : List.Forall₂ (Expr.Becomes w) values values') :
    Stmt.Becomes w (.returning values span) (.returning values' span)
  | yielding {values values' : List Expr} {span : Span}
      (h : List.Forall₂ (Expr.Becomes w) values values') :
    Stmt.Becomes w (.yielding values span) (.yielding values' span)
  | breaking (span : Span) : Stmt.Becomes w (.breaking span) (.breaking span)
  | continuing (span : Span) : Stmt.Becomes w (.continuing span) (.continuing span)
  | destroy {target target' : Expr} {generics : List TypeExpr} {args args' : List Expr}
      {span : Span} (htarget : Expr.Becomes w target target')
      (hargs : List.Forall₂ (Expr.Becomes w) args args') :
    Stmt.Becomes w (.destroy target generics args span) (.destroy target' generics args' span)
  | use (decl : UseStmt) : Stmt.Becomes w (.use decl) (.use decl)
  | expr {e e' : Expr} (h : Expr.Becomes w e e') : Stmt.Becomes w (.expr e) (.expr e')
  | error (span : Span) : Stmt.Becomes w (.error span) (.error span)
end


/-! ## Positions and errors -/

/-- Whether an expression stands for one that could not be read. -/
def Expr.isError : Expr → Bool
  | .error _ => true
  | _ => false

/-- Whether a statement stands for one that could not be read. -/
def Stmt.isError : Stmt → Bool
  | .error _ => true
  | _ => false

variable {w : Tour}

/-- Every expression stays where it was. -/
theorem Expr.Becomes.span_eq {e e' : Expr} (h : e.Becomes w e') : e'.span = e.span := by
  cases h with
  | ident h hname => exact hname.span_eq
  | _ => rfl

theorem Expr.Becomes.isError_eq {e e' : Expr} (h : e.Becomes w e') : e'.isError = e.isError := by
  cases h with
  | ident h hname => cases hname <;> rfl
  | _ => rfl

/-- Every statement stays where it was. -/
theorem Stmt.Becomes.span_eq {st st' : Stmt} (h : st.Becomes w st') : st'.span = st.span := by
  cases h with
  | declared h => cases h; rfl
  | function h => cases h; rfl
  | expr h => exact h.span_eq
  | _ => rfl

theorem Stmt.Becomes.isError_eq {st st' : Stmt} (h : st.Becomes w st') :
    st'.isError = st.isError := by
  cases h <;> rfl

theorem Ty.isError_unitLiteral (ty : Ty) (span : Span) : (ty.unitLiteral span).isError = false := by
  unfold unitLiteral
  split <;> rfl

theorem Ty.isError_defaultLiteral? {ty : Ty} {span : Span} {e : Expr}
    (h : ty.defaultLiteral? span = some e) : e.isError = false := by
  unfold defaultLiteral? at h
  split at h <;> cases h <;> rfl

end HybroidSema
