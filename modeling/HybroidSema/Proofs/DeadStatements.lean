import HybroidSema.Check.Tree
import HybroidSema.Declare.Pass
import HybroidSema.Proofs.Leaves

/-!
# Dead statements

A statement is dead if one before it in its body leaves for certain. Here a program is made blank
where it is dead: one statement that does nothing takes the place of all the dead statements of a
body. Two programs differ in dead statements only if they come to the same when they are blank.

* `Stmt.blankBody`, and the same for every kind of tree: by recursion.
* `Program.blank`: a program, with the bodies of its classes and entities.
* `Declare.program_blank`: what a program declares does not depend on its dead statements.
-/

namespace HybroidSema

theorem Span.extendTo_self (s : Span) : s.extendTo s = s := by
  unfold extendTo
  split
  · rfl
  · simp

/-- One statement that does nothing, in the place of the dead statements of a body. -/
def Stmt.blankDead : List Stmt → List Stmt
  | [] => []
  | next :: others => [.error (Check.runSpan next others)]

/-- It is reported at the place of the dead statements. -/
@[simp] theorem Check.runSpan_error (span : Span) : runSpan (.error span) [] = span :=
  span.extendTo_self

mutual
/-- An expression without its dead statements, where the exits in `p` are permitted. The arguments
of a method call, which only a walk makes, are kept as they are. -/
def Expr.blank (p : Permissions) (e : Expr) : Expr :=
  match e with
  | .literal lit => .literal lit
  | .ident id => .ident id
  | .builtin id => .builtin id
  | .envAccess env name span => .envAccess env name span
  | .unary op operand span => .unary op (operand.blank p) span
  | .binary left op right span => .binary (left.blank p) op (right.blank p) span
  | .group inner span => .group (inner.blank p) span
  | .list elems span => .list (Expr.blankAll p elems) span
  | .map entries span => .map (MapEntry.blankAll p entries) span
  | .call caller generics args returnAmount span =>
    .call (caller.blank p) generics (Expr.blankAll p args) returnAmount span
  | .methodCall receiver owner kind method generics args returnAmount span =>
    .methodCall (receiver.blank p) owner kind method generics args returnAmount span
  | .field target field index span => .field (target.blank p) field index span
  | .member target index span => .member (target.blank p) (index.blank p) span
  | .self owner span => .self owner span
  | .new ty generics args span => .new ty generics (Expr.blankAll p args) span
  | .spawn ty generics args span => .spawn ty generics (Expr.blankAll p args) span
  | .function params returns stmts span =>
    .function params returns (Stmt.blankBody { returns := true } stmts) span
  | .matching subject arms returnAmount span =>
    .matching (subject.blank p) (MatchArm.blankAll { p with yields := true } arms) returnAmount span
  | .entityTest value ty binding negated official span =>
    .entityTest (value.blank p) ty binding negated official span
  | .error span => .error span
  termination_by structural e

/-- The same for a list of expressions. -/
def Expr.blankAll (p : Permissions) (es : List Expr) : List Expr :=
  match es with
  | [] => []
  | e :: rest => e.blank p :: Expr.blankAll p rest
  termination_by structural es

/-- The same for an expression that may be left out. -/
def Expr.blankOption (p : Permissions) (e : Option Expr) : Option Expr :=
  match e with
  | none => none
  | some e => some (e.blank p)
  termination_by structural e

/-- The same for the entries of a map. -/
def MapEntry.blankAll (p : Permissions) (es : List MapEntry) : List MapEntry :=
  match es with
  | [] => []
  | ⟨key, e⟩ :: rest => ⟨key, e.blank p⟩ :: MapEntry.blankAll p rest
  termination_by structural es

/-- The same for the arms of a match. The patterns of an `else` arm are not walked, and kept as they
are. -/
def MatchArm.blankAll (p : Permissions) (arms : List MatchArm) : List MatchArm :=
  match arms with
  | [] => []
  | ⟨pats, isDefault, stmts, span⟩ :: rest =>
    ⟨if isDefault then pats else Expr.blankAll p pats, isDefault, Stmt.blankBody p stmts, span⟩ ::
      MatchArm.blankAll p rest
  termination_by structural arms

/-- A statement without its dead statements, where the exits in `p` are permitted. A class or entity
below the root is kept as it is. -/
def Stmt.blank (p : Permissions) (s : Stmt) : Stmt :=
  match s with
  | .env decl => .env decl
  | .variable ⟨names, ty, values, isPub, isConst, span⟩ =>
    .variable ⟨names, ty, Expr.blankAll p values, isPub, isConst, span⟩
  | .function ⟨name, generics, params, returns, stmts, isPub, span⟩ =>
    .function ⟨name, generics, params, returns, Stmt.blankBody { returns := true } stmts, isPub,
      span⟩
  | .classDecl decl => .classDecl decl
  | .entityDecl decl => .entityDecl decl
  | .enumDecl decl => .enumDecl decl
  | .aliasDecl decl => .aliasDecl decl
  | .assign targets op values span =>
    .assign (Expr.blankAll p targets) op (Expr.blankAll p values) span
  | .ifChain condition stmts elseifs otherwise span =>
    .ifChain (condition.blank p) (Stmt.blankBody p stmts) (ElseIf.blankAll p elseifs)
      (Stmt.blankElse p otherwise) span
  | .repeatLoop iterator start skip counter stmts span =>
    .repeatLoop (iterator.blank p) (Expr.blankOption p start) (Expr.blankOption p skip) counter
      (Stmt.blankBody (p.union .ofLoop) stmts) span
  | .whileLoop condition stmts span =>
    .whileLoop (condition.blank p) (Stmt.blankBody (p.union .ofLoop) stmts) span
  | .forLoop key value iterator stmts span =>
    .forLoop key value (iterator.blank p) (Stmt.blankBody (p.union .ofLoop) stmts) span
  | .tick counter stmts span => .tick counter (Stmt.blankBody p stmts) span
  | .matching subject arms span => .matching (subject.blank p) (MatchArm.blankAll p arms) span
  | .returning values span => .returning (Expr.blankAll p values) span
  | .yielding values span => .yielding (Expr.blankAll p values) span
  | .breaking span => .breaking span
  | .continuing span => .continuing span
  | .destroy target generics args span =>
    .destroy (target.blank p) generics (Expr.blankAll p args) span
  | .use decl => .use decl
  | .expr e => .expr (e.blank p)
  | .error span => .error span
  termination_by structural s

/-- A body without its dead statements. -/
def Stmt.blankBody (p : Permissions) (stmts : List Stmt) : List Stmt :=
  match stmts with
  | [] => []
  | first :: rest =>
    first.blank p :: if first.leaves p then Stmt.blankDead rest else Stmt.blankBody p rest
  termination_by structural stmts

/-- The same for the `elseif` branches of a chain. -/
def ElseIf.blankAll (p : Permissions) (branches : List ElseIf) : List ElseIf :=
  match branches with
  | [] => []
  | ⟨condition, stmts, span⟩ :: rest =>
    ⟨condition.blank p, Stmt.blankBody p stmts, span⟩ :: ElseIf.blankAll p rest
  termination_by structural branches

/-- The same for the `else` branch of a chain. -/
def Stmt.blankElse (p : Permissions) (otherwise : Option (List Stmt)) : Option (List Stmt) :=
  match otherwise with
  | none => none
  | some stmts => some (Stmt.blankBody p stmts)
  termination_by structural otherwise
end

/-! ## The top level -/

/-- A field of a class or entity without the dead statements in its initializers. -/
def VariableDecl.blank (decl : VariableDecl) : VariableDecl :=
  { decl with values := Expr.blankAll {} decl.values }

/-- A method without its dead statements. -/
def FunctionDecl.blank (decl : FunctionDecl) : FunctionDecl :=
  { decl with body := Stmt.blankBody { returns := true } decl.body }

/-- A constructor without its dead statements. -/
def ConstructorDecl.blank (decl : ConstructorDecl) : ConstructorDecl :=
  { decl with body := Stmt.blankBody { returns := true } decl.body }

/-- A lifecycle function without its dead statements. -/
def LifecycleDecl.blank (decl : LifecycleDecl) : LifecycleDecl :=
  { decl with body := Stmt.blankBody { returns := true } decl.body }

/-- A statement at the root, where no exit is permitted and classes and entities are declared. -/
def Stmt.blankRoot : Stmt → Stmt
  | .classDecl decl =>
    .classDecl
      { decl with
        fields := decl.fields.map (·.blank)
        methods := decl.methods.map (·.blank)
        constructor := decl.constructor.map (·.blank) }
  | .entityDecl decl =>
    .entityDecl
      { decl with
        fields := decl.fields.map (·.blank)
        methods := decl.methods.map (·.blank)
        functions := decl.functions.map (·.blank) }
  | s => s.blank {}

/-- A program without its dead statements. -/
def Program.blank (p : Program) : Program := p.map Stmt.blankRoot

/-! ## What is kept -/

namespace Expr

theorem blankAll_eq_map (p : Permissions) (es : List Expr) :
    blankAll p es = es.map (·.blank p) := by
  induction es with
  | nil => rfl
  | cons e rest ih => rw [blankAll, ih, List.map_cons]

theorem literal?_blank (p : Permissions) (e : Expr) : (e.blank p).literal? = e.literal? := by
  cases e <;> rfl

@[simp] theorem isEmpty_blankAll (p : Permissions) (es : List Expr) :
    (blankAll p es).isEmpty = es.isEmpty := by
  cases es <;> rfl

@[simp] theorem length_blankAll (p : Permissions) (es : List Expr) :
    (blankAll p es).length = es.length := by
  rw [blankAll_eq_map, List.length_map]

end Expr

@[simp] theorem MapEntry.isEmpty_blankAll (p : Permissions) (es : List MapEntry) :
    (blankAll p es).isEmpty = es.isEmpty := by
  rcases es with - | ⟨⟨key, e⟩, rest⟩ <;> rfl

@[simp] theorem MatchArm.isEmpty_blankAll (p : Permissions) (arms : List MatchArm) :
    (blankAll p arms).isEmpty = arms.isEmpty := by
  rcases arms with - | ⟨⟨pats, isDefault, stmts, span⟩, rest⟩ <;> rfl

namespace VariableDecl

variable (decl : VariableDecl)

@[simp] theorem names_blank : decl.blank.names = decl.names := rfl

@[simp] theorem ty_blank : decl.blank.ty = decl.ty := rfl

@[simp] theorem isEmpty_values_blank : decl.blank.values.isEmpty = decl.values.isEmpty :=
  Expr.isEmpty_blankAll _ _

/-- The literals among the initializers are kept. -/
theorem literals_blank :
    decl.blank.values.map Expr.literal? = decl.values.map Expr.literal? := by
  have hkept : Expr.literal? ∘ (·.blank {}) = Expr.literal? := funext (Expr.literal?_blank {})
  rw [blank, Expr.blankAll_eq_map, List.map_map, hkept]

end VariableDecl

/-! ## Declarations -/

namespace Declare

open Check

theorem fieldValue_blank (decl : VariableDecl) (declared : Option Ty) (index : Nat) :
    fieldValue decl.blank declared index = fieldValue decl declared index := by
  have hliterals := decl.literals_blank
  have hlength : decl.blank.values.length = decl.values.length := Expr.length_blankAll _ _
  have hliteral : (decl.blank.values[index]?).bind Expr.literal? =
      (decl.values[index]?).bind Expr.literal? := by
    have hget := congrArg (fun literals => literals[index]?.bind id) hliterals
    simpa only [List.getElem?_map, Option.bind_map, Function.id_comp] using hget
  unfold fieldValue
  rw [hliteral, hlength, decl.names_blank]

theorem registerFields_blank (decls : List VariableDecl) :
    registerFields (decls.map (·.blank)) = registerFields decls := by
  induction decls with
  | nil => rfl
  | cons decl rest ih =>
    have hnames (declared : Option Ty) (index : Nat) (left : List Ident) (members : Members) :
        registerNames decl.blank declared index left members =
          registerNames decl declared index left members := by
      induction left generalizing index members with
      | nil => rfl
      | cons name left ih =>
        simp only [registerNames, fieldValue_blank, decl.isEmpty_values_blank, ih]
        rfl
    funext members
    simp only [List.map_cons, registerFields, hnames, ih, decl.ty_blank, decl.names_blank]

theorem registerMethods_blank (decls : List FunctionDecl) :
    registerMethods (decls.map (·.blank)) = registerMethods decls := by
  induction decls with
  | nil => rfl
  | cons decl rest ih =>
    funext members
    simp only [List.map_cons, registerMethods, ih]
    rfl

theorem registerLifecycles_blank (entity : Ident) (decls : List LifecycleDecl) :
    registerLifecycles entity (decls.map (·.blank)) = registerLifecycles entity decls := by
  induction decls with
  | nil => rfl
  | cons decl rest ih =>
    funext first
    simp only [List.map_cons, registerLifecycles, ih]
    rfl

theorem registerMembers_blankRoot (s : Stmt) : registerMembers s.blankRoot = registerMembers s := by
  cases s with
  | classDecl decl =>
    have hconstructor : registerConstructor
        { decl with
          fields := decl.fields.map (·.blank)
          methods := decl.methods.map (·.blank)
          constructor := decl.constructor.map (·.blank) } = registerConstructor decl := by
      unfold registerConstructor
      cases decl.constructor <;> rfl
    simp only [Stmt.blankRoot, registerMembers, registerClass, registerFields_blank,
      registerMethods_blank, hconstructor]
  | entityDecl decl =>
    simp only [Stmt.blankRoot, registerMembers, registerEntity, registerFields_blank,
      registerMethods_blank, registerLifecycles_blank]
  | «variable» decl | function decl => cases decl; rfl
  | _ => rfl

theorem registerFunction_blankRoot (s : Stmt) :
    registerFunction s.blankRoot = registerFunction s := by
  cases s with
  | «variable» decl | function decl => cases decl; rfl
  | _ => rfl

theorem claimType_blankRoot (s : Stmt) : claimType s.blankRoot = claimType s := by
  cases s with
  | «variable» decl | function decl => cases decl; rfl
  | _ => rfl

theorem countEach_blank {step : Stmt → Check Nat} (h : ∀ s : Stmt, step s.blankRoot = step s)
    (program : Program) : countEach step program.blank = countEach step program := by
  unfold Program.blank
  induction program with
  | nil => rfl
  | cons first rest ih => simp only [List.map_cons, countEach, h, ih]

theorem filterMap_blank {α : Type} {f : Stmt → Option α} (h : ∀ s : Stmt, f s.blankRoot = f s)
    (program : Program) : program.blank.filterMap f = program.filterMap f := by
  rw [Program.blank, List.filterMap_map]
  exact congrArg (List.filterMap · program) (funext h)

/-- What a program declares does not depend on its dead statements. -/
theorem program_blank (program : Program) :
    Declare.program program.blank = Declare.program program := by
  have huse : program.blank.filterMap use? = program.filterMap use? := by
    refine filterMap_blank (fun s => ?_) program
    cases s with
    | «variable» decl | function decl => cases decl; rfl
    | _ => rfl
  have halias : program.blank.filterMap alias? = program.filterMap alias? := by
    refine filterMap_blank (fun s => ?_) program
    cases s with
    | «variable» decl | function decl => cases decl; rfl
    | _ => rfl
  simp only [Declare.program, importAll, walkImports, resolveAliases, huse, halias,
    countEach_blank claimType_blankRoot, countEach_blank registerMembers_blankRoot,
    countEach_blank registerFunction_blankRoot]

end Declare

end HybroidSema
