import HybroidSema.Tree

/-!
# Induction on trees

Every kind of node is taken apart once, into the expressions and the statements right inside it, in
lists. What a node inherits from what is right inside it, all nodes have.

* `Expr.children`, `Expr.patterns` and `Expr.statements`: what is right inside an expression.
* `Stmt.expressions` and `Stmt.statements`: what is right inside a statement.
* `Tree.induction`: all expressions and all statements, and `Expr.induction` where bodies do not matter.
-/

namespace HybroidSema

/-! ## What is right inside -/

namespace Expr

/-- The expressions right inside an expression, in the order in which they are walked. What is in
the body of a function or in the arms of a match is not among them. -/
def children : Expr → List Expr
  | .literal _ | .ident _ | .builtin _ | .envAccess _ _ _ | .self _ _ | .error _
  | .function _ _ _ _ => []
  | .unary _ e _ | .group e _ | .field e _ _ _ | .matching e _ _ _ | .entityTest e _ _ _ _ _ => [e]
  | .binary left _ right _ => [left, right]
  | .member target index _ => [target, index]
  | .list elems _ => elems
  | .map entries _ => entries.map (·.value)
  | .call caller _ args _ _ => caller :: args
  | .methodCall receiver _ _ _ _ args _ _ => receiver :: args
  | .new _ _ args _ | .spawn _ _ args _ => args

/-- The patterns of the arms of an expression. -/
def patterns : Expr → List Expr
  | .matching _ arms _ _ => arms.flatMap (·.patterns)
  | _ => []

/-- The statements in the bodies of an expression. -/
def statements : Expr → List Stmt
  | .function _ _ body _ => body
  | .matching _ arms _ _ => arms.flatMap (·.body)
  | _ => []

end Expr

namespace Stmt

/-- The expressions right inside a statement. -/
def expressions : Stmt → List Expr
  | .variable decl => decl.values
  | .classDecl decl => decl.fields.flatMap (·.values)
  | .entityDecl decl => decl.fields.flatMap (·.values)
  | .assign targets _ values _ => targets ++ values
  | .ifChain condition _ elseifs _ _ => condition :: elseifs.map (·.condition)
  | .repeatLoop iterator start skip _ _ _ => iterator :: (start.toList ++ skip.toList)
  | .whileLoop condition _ _ => [condition]
  | .forLoop _ _ iterator _ _ => [iterator]
  | .matching subject arms _ => subject :: arms.flatMap (·.patterns)
  | .returning values _ | .yielding values _ => values
  | .destroy target _ args _ => target :: args
  | .expr e => [e]
  | .env _ | .function _ | .enumDecl _ | .aliasDecl _ | .tick _ _ _ | .breaking _ | .continuing _
  | .use _ | .error _ => []

/-- The statements in the bodies of a statement. -/
def statements : Stmt → List Stmt
  | .function decl => decl.body
  | .classDecl decl => decl.methods.flatMap (·.body) ++ decl.constructor.toList.flatMap (·.body)
  | .entityDecl decl => decl.methods.flatMap (·.body) ++ decl.functions.flatMap (·.body)
  | .ifChain _ body elseifs otherwise _ => body ++ (elseifs.flatMap (·.body) ++ otherwise.getD [])
  | .repeatLoop _ _ _ _ body _ | .whileLoop _ body _ | .forLoop _ _ _ body _ | .tick _ body _ => body
  | .matching _ arms _ => arms.flatMap (·.body)
  | .env _ | .variable _ | .enumDecl _ | .aliasDecl _ | .assign _ _ _ _ | .returning _ _
  | .yielding _ _ | .breaking _ | .continuing _ | .destroy _ _ _ _ | .use _ | .expr _
  | .error _ => []

end Stmt

/-! ## Sizes -/

section Sizes

variable {α β : Type} [SizeOf α] [SizeOf β] {l : List α} {b : β}

theorem sizeOf_lt_of_mem_map {f : α → β} (hf : ∀ a, sizeOf (f a) < sizeOf a) (h : b ∈ l.map f) :
    sizeOf b < sizeOf l := by
  obtain ⟨a, ha, rfl⟩ := List.mem_map.1 h
  exact Nat.lt_trans (hf a) (List.sizeOf_lt_of_mem ha)

theorem sizeOf_lt_of_mem_flatMap {f : α → List β} (hf : ∀ a, sizeOf (f a) < sizeOf a)
    (h : b ∈ l.flatMap f) : sizeOf b < sizeOf l := by
  obtain ⟨a, ha, hb⟩ := List.mem_flatMap.1 h
  exact Nat.lt_trans (List.sizeOf_lt_of_mem hb) (Nat.lt_trans (hf a) (List.sizeOf_lt_of_mem ha))

end Sizes

theorem MapEntry.sizeOf_value_lt (entry : MapEntry) : sizeOf entry.value < sizeOf entry := by
  obtain ⟨key, value⟩ := entry
  simp only [MapEntry.mk.sizeOf_spec]
  omega

theorem MatchArm.sizeOf_patterns_lt (arm : MatchArm) : sizeOf arm.patterns < sizeOf arm := by
  obtain ⟨patterns, isDefault, body, span⟩ := arm
  simp only [MatchArm.mk.sizeOf_spec]
  omega

theorem MatchArm.sizeOf_body_lt (arm : MatchArm) : sizeOf arm.body < sizeOf arm := by
  obtain ⟨patterns, isDefault, body, span⟩ := arm
  simp only [MatchArm.mk.sizeOf_spec]
  omega

theorem VariableDecl.sizeOf_values_lt (decl : VariableDecl) :
    sizeOf decl.values < sizeOf decl := by
  obtain ⟨names, ty, values, isPub, isConst, span⟩ := decl
  simp only [VariableDecl.mk.sizeOf_spec]
  omega

theorem FunctionDecl.sizeOf_body_lt (decl : FunctionDecl) : sizeOf decl.body < sizeOf decl := by
  obtain ⟨name, generics, params, returns, body, isPub, span⟩ := decl
  simp only [FunctionDecl.mk.sizeOf_spec]
  omega

theorem ConstructorDecl.sizeOf_body_lt (decl : ConstructorDecl) :
    sizeOf decl.body < sizeOf decl := by
  obtain ⟨generics, params, body, span⟩ := decl
  simp only [ConstructorDecl.mk.sizeOf_spec]
  omega

theorem LifecycleDecl.sizeOf_body_lt (decl : LifecycleDecl) : sizeOf decl.body < sizeOf decl := by
  obtain ⟨kind, generics, params, returns, body, span⟩ := decl
  simp only [LifecycleDecl.mk.sizeOf_spec]
  omega

theorem ElseIf.sizeOf_condition_lt (branch : ElseIf) : sizeOf branch.condition < sizeOf branch := by
  obtain ⟨condition, body, span⟩ := branch
  simp only [ElseIf.mk.sizeOf_spec]
  omega

theorem ElseIf.sizeOf_body_lt (branch : ElseIf) : sizeOf branch.body < sizeOf branch := by
  obtain ⟨condition, body, span⟩ := branch
  simp only [ElseIf.mk.sizeOf_spec]
  omega

theorem Expr.sizeOf_lt_of_mem_children {e child : Expr} (h : child ∈ e.children) :
    sizeOf child < sizeOf e := by
  cases e with
  | literal | ident | builtin | envAccess | self | error | function => cases h
  | unary | group | field | matching | entityTest =>
    obtain rfl := List.mem_singleton.1 h
    simp only [Expr.unary.sizeOf_spec, Expr.group.sizeOf_spec, Expr.field.sizeOf_spec,
      Expr.matching.sizeOf_spec, Expr.entityTest.sizeOf_spec]
    omega
  | binary | member =>
    simp only [children, List.mem_cons, List.not_mem_nil, or_false] at h
    rcases h with rfl | rfl <;>
      simp only [Expr.binary.sizeOf_spec, Expr.member.sizeOf_spec] <;> omega
  | list elems | new _ _ elems | spawn _ _ elems =>
    have helem : sizeOf child < sizeOf elems := List.sizeOf_lt_of_mem h
    simp only [Expr.list.sizeOf_spec, Expr.new.sizeOf_spec, Expr.spawn.sizeOf_spec]
    omega
  | map entries =>
    have helem := sizeOf_lt_of_mem_map MapEntry.sizeOf_value_lt h
    simp only [Expr.map.sizeOf_spec]
    omega
  | call first _ args | methodCall first _ _ _ _ args =>
    rcases List.mem_cons.1 h with rfl | h
    · simp only [Expr.call.sizeOf_spec, Expr.methodCall.sizeOf_spec]
      omega
    · have helem := List.sizeOf_lt_of_mem h
      simp only [Expr.call.sizeOf_spec, Expr.methodCall.sizeOf_spec]
      omega

theorem Expr.sizeOf_lt_of_mem_patterns {e child : Expr} (h : child ∈ e.patterns) :
    sizeOf child < sizeOf e := by
  cases e with
  | matching subject arms =>
    have harms := sizeOf_lt_of_mem_flatMap MatchArm.sizeOf_patterns_lt h
    simp only [Expr.matching.sizeOf_spec]
    omega
  | _ => cases h

theorem Expr.sizeOf_lt_of_mem_statements {e : Expr} {st : Stmt} (h : st ∈ e.statements) :
    sizeOf st < sizeOf e := by
  cases e with
  | function params returns body =>
    have hbody : sizeOf st < sizeOf body := List.sizeOf_lt_of_mem h
    simp only [Expr.function.sizeOf_spec]
    omega
  | matching subject arms =>
    have harms := sizeOf_lt_of_mem_flatMap MatchArm.sizeOf_body_lt h
    simp only [Expr.matching.sizeOf_spec]
    omega
  | _ => cases h

theorem Stmt.sizeOf_lt_of_mem_expressions {st : Stmt} {e : Expr} (h : e ∈ st.expressions) :
    sizeOf e < sizeOf st := by
  cases st with
  | «variable» decl =>
    have hvalues := Nat.lt_trans (List.sizeOf_lt_of_mem h) decl.sizeOf_values_lt
    simp only [Stmt.variable.sizeOf_spec]
    omega
  | classDecl decl =>
    obtain ⟨name, isPub, fields, methods, constructor, span⟩ := decl
    have hfields : sizeOf e < sizeOf fields :=
      sizeOf_lt_of_mem_flatMap VariableDecl.sizeOf_values_lt h
    simp only [Stmt.classDecl.sizeOf_spec, ClassDecl.mk.sizeOf_spec]
    omega
  | entityDecl decl =>
    obtain ⟨name, isPub, fields, methods, functions, span⟩ := decl
    have hfields : sizeOf e < sizeOf fields :=
      sizeOf_lt_of_mem_flatMap VariableDecl.sizeOf_values_lt h
    simp only [Stmt.entityDecl.sizeOf_spec, EntityDecl.mk.sizeOf_spec]
    omega
  | assign targets op values =>
    rcases List.mem_append.1 h with h | h <;>
    · have helem := List.sizeOf_lt_of_mem h
      simp only [Stmt.assign.sizeOf_spec]
      omega
  | ifChain condition body elseifs =>
    rcases List.mem_cons.1 h with rfl | h
    · simp only [Stmt.ifChain.sizeOf_spec]
      omega
    · have helseifs := sizeOf_lt_of_mem_map ElseIf.sizeOf_condition_lt h
      simp only [Stmt.ifChain.sizeOf_spec]
      omega
  | repeatLoop iterator start skip =>
    simp only [expressions, List.mem_cons, List.mem_append, Option.mem_toList] at h
    rcases h with rfl | rfl | rfl <;>
      simp only [Stmt.repeatLoop.sizeOf_spec, Option.some.sizeOf_spec] <;> omega
  | whileLoop | forLoop =>
    obtain rfl := List.mem_singleton.1 h
    simp only [Stmt.whileLoop.sizeOf_spec, Stmt.forLoop.sizeOf_spec]
    omega
  | expr =>
    obtain rfl := List.mem_singleton.1 h
    simp only [Stmt.expr.sizeOf_spec]
    omega
  | matching subject arms =>
    rcases List.mem_cons.1 h with rfl | h
    · simp only [Stmt.matching.sizeOf_spec]
      omega
    · have harms := sizeOf_lt_of_mem_flatMap MatchArm.sizeOf_patterns_lt h
      simp only [Stmt.matching.sizeOf_spec]
      omega
  | returning values | yielding values =>
    have helem : sizeOf e < sizeOf values := List.sizeOf_lt_of_mem h
    simp only [Stmt.returning.sizeOf_spec, Stmt.yielding.sizeOf_spec]
    omega
  | destroy target generics args =>
    rcases List.mem_cons.1 h with rfl | h
    · simp only [Stmt.destroy.sizeOf_spec]
      omega
    · have helem := List.sizeOf_lt_of_mem h
      simp only [Stmt.destroy.sizeOf_spec]
      omega
  | _ => cases h

theorem Stmt.sizeOf_lt_of_mem_statements {st inner : Stmt} (h : inner ∈ st.statements) :
    sizeOf inner < sizeOf st := by
  cases st with
  | function decl =>
    have hbody := Nat.lt_trans (List.sizeOf_lt_of_mem h) decl.sizeOf_body_lt
    simp only [Stmt.function.sizeOf_spec]
    omega
  | classDecl decl =>
    obtain ⟨name, isPub, fields, methods, constructor, span⟩ := decl
    rcases List.mem_append.1 h with h | h
    · have hmethods : sizeOf inner < sizeOf methods :=
        sizeOf_lt_of_mem_flatMap FunctionDecl.sizeOf_body_lt h
      simp only [Stmt.classDecl.sizeOf_spec, ClassDecl.mk.sizeOf_spec]
      omega
    · obtain ⟨decl, rfl, hbody⟩ : ∃ decl, constructor = some decl ∧ inner ∈ decl.body := by
        simpa [and_comm] using h
      have hdecl := Nat.lt_trans (List.sizeOf_lt_of_mem hbody) decl.sizeOf_body_lt
      simp only [Stmt.classDecl.sizeOf_spec, ClassDecl.mk.sizeOf_spec, Option.some.sizeOf_spec]
      omega
  | entityDecl decl =>
    obtain ⟨name, isPub, fields, methods, functions, span⟩ := decl
    rcases List.mem_append.1 h with h | h
    · have hmethods : sizeOf inner < sizeOf methods :=
        sizeOf_lt_of_mem_flatMap FunctionDecl.sizeOf_body_lt h
      simp only [Stmt.entityDecl.sizeOf_spec, EntityDecl.mk.sizeOf_spec]
      omega
    · have hfunctions : sizeOf inner < sizeOf functions :=
        sizeOf_lt_of_mem_flatMap LifecycleDecl.sizeOf_body_lt h
      simp only [Stmt.entityDecl.sizeOf_spec, EntityDecl.mk.sizeOf_spec]
      omega
  | ifChain condition body elseifs otherwise =>
    rcases List.mem_append.1 h with h | h
    · have hbody := List.sizeOf_lt_of_mem h
      simp only [Stmt.ifChain.sizeOf_spec]
      omega
    · rcases List.mem_append.1 h with h | h
      · have helseifs := sizeOf_lt_of_mem_flatMap ElseIf.sizeOf_body_lt h
        simp only [Stmt.ifChain.sizeOf_spec]
        omega
      · cases otherwise with
        | none => cases h
        | some body =>
          have hbody : sizeOf inner < sizeOf body := List.sizeOf_lt_of_mem h
          simp only [Stmt.ifChain.sizeOf_spec, Option.some.sizeOf_spec]
          omega
  | repeatLoop _ _ _ _ body | whileLoop _ body | forLoop _ _ _ body | tick _ body =>
    have hbody : sizeOf inner < sizeOf body := List.sizeOf_lt_of_mem h
    simp only [Stmt.repeatLoop.sizeOf_spec, Stmt.whileLoop.sizeOf_spec, Stmt.forLoop.sizeOf_spec,
      Stmt.tick.sizeOf_spec]
    omega
  | matching subject arms =>
    have harms := sizeOf_lt_of_mem_flatMap MatchArm.sizeOf_body_lt h
    simp only [Stmt.matching.sizeOf_spec]
    omega
  | _ => cases h

/-! ## Induction -/

/-- What an expression and a statement inherit from what is right inside them, all have. -/
theorem Tree.induction {P : Expr → Prop} {Q : Stmt → Prop}
    (expr : ∀ e : Expr, (∀ child ∈ e.children, P child) → (∀ pattern ∈ e.patterns, P pattern) →
      (∀ st ∈ e.statements, Q st) → P e)
    (stmt : ∀ st : Stmt, (∀ e ∈ st.expressions, P e) → (∀ inner ∈ st.statements, Q inner) → Q st) :
    (∀ e, P e) ∧ ∀ st, Q st := by
  have hbelow (n : Nat) : (∀ e : Expr, sizeOf e < n → P e) ∧ ∀ st : Stmt, sizeOf st < n → Q st := by
    induction n with
    | zero => exact ⟨nofun, nofun⟩
    | succ n ih =>
      obtain ⟨hexpr, hstmt⟩ := ih
      have hlt {a b : Nat} (h : a < b) (hb : b < n + 1) : a < n :=
        Nat.lt_of_lt_of_le h (Nat.le_of_lt_succ hb)
      refine ⟨fun e he => expr e (fun child h => hexpr child ?_) (fun pattern h => hexpr pattern ?_)
        fun st h => hstmt st ?_, fun st hst => stmt st (fun e h => hexpr e ?_)
          fun inner h => hstmt inner ?_⟩
      · exact hlt (Expr.sizeOf_lt_of_mem_children h) he
      · exact hlt (Expr.sizeOf_lt_of_mem_patterns h) he
      · exact hlt (Expr.sizeOf_lt_of_mem_statements h) he
      · exact hlt (Stmt.sizeOf_lt_of_mem_expressions h) hst
      · exact hlt (Stmt.sizeOf_lt_of_mem_statements h) hst
  exact ⟨fun e => (hbelow _).1 e (Nat.lt_succ_self _),
    fun st => (hbelow _).2 st (Nat.lt_succ_self _)⟩

/-- Where bodies and arms do not matter, all expressions have what they inherit from the expressions
right inside them. -/
theorem Expr.induction {P : Expr → Prop} (expr : ∀ e : Expr, (∀ child ∈ e.children, P child) → P e)
    (e : Expr) : P e :=
  (Tree.induction (Q := fun _ => True) (fun e hes _ _ => expr e hes) fun _ _ _ => trivial).1 e

end HybroidSema
