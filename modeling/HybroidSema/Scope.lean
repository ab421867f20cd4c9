import HybroidSema.Exit
import HybroidSema.Value.Declared

/-!
# Lexical scopes

The open scopes of one environment form a stack over its root scope, which is never closed. A
position on the stack counts from the root, so the position of a scope stays the same while scopes
above it open and close.

Each scope has its variables, a tag that says what opened it, the statements it permits and the
exits its body has so far. Permissions are inherited when a scope opens and only ever added to;
field initializers are the one place that removes one.

* `Permissions`, `ScopeTag`, `Scope`: one scope.
* `ScopeStack.push`, `pushRestricted`, `pushFunction` and `close`: opening and closing. Closing
  reports the exits of the scope to the one below.
* `ScopeStack.declare`, `resolve?` and `assign`: variables.
-/

namespace HybroidSema

/-! ## One scope -/

/-- The statements a scope permits. -/
structure Permissions where
  returns : Bool := false
  yields : Bool := false
  selfRef : Bool := false
  breaks : Bool := false
  continues : Bool := false
deriving DecidableEq, Repr, Inhabited

namespace Permissions

/-- Nothing is permitted. -/
def empty : Permissions := {}

/-- What a loop body permits in addition. -/
def ofLoop : Permissions := { breaks := true, continues := true }

/-- What either permits. -/
def union (a b : Permissions) : Permissions :=
  ⟨a.returns || b.returns, a.yields || b.yields, a.selfRef || b.selfRef, a.breaks || b.breaks,
    a.continues || b.continues⟩

/-- What both permit. -/
def inter (a b : Permissions) : Permissions :=
  ⟨a.returns && b.returns, a.yields && b.yields, a.selfRef && b.selfRef, a.breaks && b.breaks,
    a.continues && b.continues⟩

/-- What `a` permits and `b` does not. -/
def diff (a b : Permissions) : Permissions :=
  ⟨a.returns && !b.returns, a.yields && !b.yields, a.selfRef && !b.selfRef, a.breaks && !b.breaks,
    a.continues && !b.continues⟩

/-- Whether `a` permits everything that `b` does. -/
def contains (a b : Permissions) : Bool := a.inter b == b

end Permissions

/-- A function body: its generic parameters and its declared return types. -/
structure FuncTag where
  generics : List String := []
  returns : List Ty := []
deriving Repr, Inhabited

/-- The arms of a match expression: their exits, and the types of the first `yield`. -/
structure MatchTag where
  paths : MultiPath := {}
  yields : Option (List Ty) := none
deriving Repr, Inhabited

/-- What opened a scope. -/
inductive ScopeTag where
  | plain
  | classBody (ref : DeclRef)
  | entityBody (ref : DeclRef)
  | func (tag : FuncTag)
  /-- The exits of a loop body stay inside the loop. -/
  | loop
  /-- The alternative branches of an `if` chain or a match statement. -/
  | multiPath (paths : MultiPath)
  | matchExpr (tag : MatchTag)
deriving Repr, Inhabited

namespace ScopeTag

/-- The class or entity whose body this is. -/
def container? : ScopeTag → Option (DeclRef × NamedKind)
  | classBody ref => some (ref, .classDecl)
  | entityBody ref => some (ref, .entityDecl)
  | _ => none

/-- The function whose body this is. -/
def func? : ScopeTag → Option FuncTag
  | func tag => some tag
  | _ => none

/-- The match expression whose arms these are. -/
def matchExpr? : ScopeTag → Option MatchTag
  | matchExpr tag => some tag
  | _ => none

end ScopeTag

/-- One lexical scope. The root has no parent; any other scope has the position of the scope that it
was opened in. -/
structure Scope where
  tag : ScopeTag := .plain
  permits : Permissions := {}
  exits : Exits := {}
  bindings : Table Variable := .empty
  parent : Option Nat := none
deriving Repr, Inhabited

namespace Scope

/-- The exits that a scope hands to the one below when it is closed. Branches hand on what they
share; functions, loops and match expressions keep their exits. -/
def handedOn? (s : Scope) : Option Exits :=
  match s.tag with
  | .multiPath paths => some paths.finish
  | .func _ | .loop | .matchExpr _ => none
  | .plain | .classBody _ | .entityBody _ => some s.exits

/-- The scope after a child with the given exits was closed: one more branch, or exits in
sequence. -/
def receive (s : Scope) (exits : Exits) : Scope :=
  match s.tag with
  | .multiPath paths => { s with tag := .multiPath (paths.report exits) }
  | .matchExpr tag => { s with tag := .matchExpr { tag with paths := tag.paths.report exits } }
  | _ => { s with exits := s.exits.union exits }

end Scope

/-- Why a scope operation was refused. -/
inductive ScopeError where
  | alreadyDeclared (name : String) (first : Span)
  | constAssignment (name : String)
  | undeclared (name : String)
deriving DecidableEq, Repr

/-- The text of a refusal. -/
def ScopeError.message : ScopeError → String
  | alreadyDeclared name _ => s!"'{name}' is already declared in this scope"
  | constAssignment name => s!"cannot assign to constant '{name}'"
  | undeclared name => s!"'{name}' is not declared"

/-- Bind a variable in a scope. A binding that exists is kept. -/
def Scope.declare (s : Scope) (binding : Variable) : Except ScopeError Scope :=
  match s.bindings.get? binding.name with
  | some existing => .error (.alreadyDeclared binding.name existing.span)
  | none => .ok { s with bindings := s.bindings.insert binding.name binding }

/-! ## The stack -/

/-- The open scopes: the root, and the others with the innermost first. -/
structure ScopeStack where
  root : Scope := {}
  inner : List Scope := []
deriving Repr, Inhabited

namespace ScopeStack

/-- A stack with only the root scope. -/
def new : ScopeStack := {}

/-- The number of open scopes, the root included. -/
def depth (s : ScopeStack) : Nat := s.inner.length + 1

/-- Whether the root is the innermost scope. -/
def isRoot (s : ScopeStack) : Bool := s.inner.isEmpty

/-- All open scopes, innermost first. -/
def chain (s : ScopeStack) : List Scope := s.inner ++ [s.root]

/-- The innermost scope. -/
def current (s : ScopeStack) : Scope :=
  match s.inner with
  | [] => s.root
  | scope :: _ => scope

/-- The position of the innermost scope. -/
def currentPosition (s : ScopeStack) : Nat := s.inner.length

/-- Change the innermost scope. -/
def modifyCurrent (s : ScopeStack) (f : Scope → Scope) : ScopeStack :=
  match s.inner with
  | [] => { s with root := f s.root }
  | scope :: rest => { s with inner := f scope :: rest }

/-- The scope at a position. -/
def get? (s : ScopeStack) (position : Nat) : Option Scope :=
  if position ≤ s.inner.length then s.chain[s.inner.length - position]? else none

/-- Change the scope at a position, if there is one. -/
def modifyAt (s : ScopeStack) (position : Nat) (f : Scope → Scope) : ScopeStack :=
  if position = 0 then { s with root := f s.root }
  else if position ≤ s.inner.length then
    { s with inner := s.inner.modify (s.inner.length - position) f }
  else s

/-- The position of the innermost scope with a property. -/
def innermost? (s : ScopeStack) (p : Scope → Bool) : Option Nat :=
  (s.chain.findIdx? p).map (s.inner.length - ·)

/-! ### Opening and closing -/

/-- Open a scope with the given permissions. -/
def enter (s : ScopeStack) (tag : ScopeTag) (permits : Permissions) : ScopeStack :=
  { s with inner := { tag := tag, permits := permits, parent := some s.currentPosition } :: s.inner }

/-- Open a scope that permits more than the one around it. -/
def push (s : ScopeStack) (tag : ScopeTag) (added : Permissions) : ScopeStack :=
  s.enter tag (s.current.permits.union added)

/-- Open a scope that permits less than the one around it. -/
def pushRestricted (s : ScopeStack) (tag : ScopeTag) (removed : Permissions) : ScopeStack :=
  s.enter tag (s.current.permits.diff removed)

/-- Open a function body. Of the permissions around it only `self` survives. -/
def pushFunction (s : ScopeStack) (tag : FuncTag) : ScopeStack :=
  s.enter (.func tag) { returns := true, selfRef := s.current.permits.selfRef }

/-- Hand exits to the innermost scope. -/
def reportExits (s : ScopeStack) (exits : Exits) : ScopeStack :=
  s.modifyCurrent (·.receive exits)

/-- Record an exit statement of a kind in the innermost scope. -/
def markExit (s : ScopeStack) (kind : Exits) : ScopeStack :=
  s.modifyCurrent fun scope => { scope with exits := scope.exits.union (.leaving kind) }

/-- Close the innermost scope and hand its exits to the one below. The root stays open. -/
def close? (s : ScopeStack) : Option (Scope × ScopeStack) :=
  match s.inner with
  | [] => none
  | scope :: rest =>
    let below := { s with inner := rest }
    match scope.handedOn? with
    | some exits => some (scope, below.reportExits exits)
    | none => some (scope, below)

/-! ### Looking outwards -/

/-- Whether the innermost scope permits everything that is asked for. -/
def allows (s : ScopeStack) (asked : Permissions) : Bool := s.current.permits.contains asked

/-- The innermost class or entity body. -/
def nearestContainer? (s : ScopeStack) : Option Nat :=
  s.innermost? (·.tag.container?.isSome)

/-- The class or entity whose body is the innermost one. -/
def container? (s : ScopeStack) : Option (DeclRef × NamedKind) :=
  s.chain.findSome? (·.tag.container?)

/-- The innermost function body. -/
def func? (s : ScopeStack) : Option FuncTag := s.chain.findSome? (·.tag.func?)

/-- Whether a generic parameter of some enclosing function has the name. -/
def hasGeneric (s : ScopeStack) (name : String) : Bool :=
  s.chain.any fun scope =>
    match scope.tag.func? with
    | some tag => tag.generics.contains name
    | none => false

/-! ### Variables -/

/-- Bind a variable in the innermost scope. -/
def declare (s : ScopeStack) (binding : Variable) : Except ScopeError ScopeStack :=
  (s.current.declare binding).map fun scope => s.modifyCurrent fun _ => scope

/-- Bind a variable in the root scope. -/
def declareRoot (s : ScopeStack) (binding : Variable) : Except ScopeError ScopeStack :=
  (s.root.declare binding).map fun scope => { s with root := scope }

/-- The position of the innermost scope that binds a name. -/
def resolve? (s : ScopeStack) (name : String) : Option Nat :=
  s.innermost? (·.bindings.contains name)

/-- A binding of the scope at a position. -/
def binding? (s : ScopeStack) (position : Nat) (name : String) : Option Variable := do
  let scope ← s.get? position
  scope.bindings.get? name

/-- Change a binding of the scope at a position. -/
def modifyVariable (s : ScopeStack) (position : Nat) (name : String) (f : Variable → Variable) :
    ScopeStack :=
  s.modifyAt position fun scope => { scope with bindings := scope.bindings.modify name f }

/-- Assign to a binding of the scope at a position, with a new value if one is given. A constant
refuses it. -/
def assign (s : ScopeStack) (position : Nat) (name : String) (value : Option Value) :
    Except ScopeError ScopeStack :=
  match s.binding? position name with
  | none => .error (.undeclared name)
  | some binding =>
    if binding.isConst then .error (.constAssignment name)
    else .ok (s.modifyVariable position name fun v =>
      { v with value := value.getD v.value, isInit := true })

end ScopeStack

end HybroidSema
