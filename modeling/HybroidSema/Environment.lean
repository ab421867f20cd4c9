import HybroidSema.Scope

/-!
# Environments

An `Environment` belongs to one source file. It owns the scopes of the file, the classes, entities,
enums and aliases that it declares, and the ordered lists of the environments that it requires and
imports.

The four kinds of declared types share one space of names: `Environment.declaredSpan?` finds a
name in any of the tables.
-/

namespace HybroidSema

/-- How far an environment was walked. -/
inductive WalkState where
  | notWalked
  | walking
  | walked
deriving DecidableEq, Repr

/-- The name of a state. -/
def WalkState.name : WalkState → String
  | notWalked => "NotWalked"
  | walking => "Walking"
  | walked => "Walked"

/-- A type that an environment declares, and whether others may use it. -/
structure DeclaredType where
  ty : Ty
  isPub : Bool
deriving Repr

/-- One compilation unit. -/
structure Environment where
  id : EnvId
  path : String
  name : String
  kind : EnvKind
  scopes : ScopeStack := {}
  classes : Table ClassInfo := .empty
  entities : Table EntityInfo := .empty
  enums : Table EnumInfo := .empty
  aliases : Table AliasInfo := .empty
  /-- The environments this one has linked, in first-use order. -/
  requirements : List EnvId := []
  /-- The targets of its `use` statements in order. -/
  imports : List EnvId := []
  state : WalkState := .notWalked
deriving Repr

namespace Environment

/-- Whether a requirement would be recorded for the first time. -/
def lacksRequirement (e : Environment) (target : EnvId) : Bool :=
  !(target == e.id || e.requirements.contains target)

/-- Record a requirement, once and never on itself. -/
def require (e : Environment) (target : EnvId) : Environment :=
  if e.lacksRequirement target then { e with requirements := e.requirements ++ [target] } else e

/-- Whether an import would be recorded for the first time. -/
def lacksImport (e : Environment) (target : EnvId) : Bool := !e.imports.contains target

/-- Record an import, once. -/
def addImport (e : Environment) (target : EnvId) : Environment :=
  if e.lacksImport target then { e with imports := e.imports ++ [target] } else e

/-- Where a class, entity, enum or alias with the name was declared. -/
def declaredSpan? (e : Environment) (name : String) : Option Span :=
  (e.classes.get? name).map (·.span) <|> (e.entities.get? name).map (·.span) <|>
    (e.enums.get? name).map (·.span) <|> (e.aliases.get? name).map (·.span)

/-- Whether a class, entity, enum or alias has the name. -/
def declaresType (e : Environment) (name : String) : Bool := (e.declaredSpan? name).isSome

/-- The type that a name declared here stands for. -/
def declaredType? (e : Environment) (name : String) : Option DeclaredType :=
  (e.classes.get? name).map (fun c => ⟨.named e.id name .classDecl, c.isPub⟩) <|>
    (e.entities.get? name).map (fun c => ⟨.named e.id name .entityDecl, c.isPub⟩) <|>
    (e.enums.get? name).map (fun c => ⟨.enum e.id name, c.isPub⟩) <|>
    (e.aliases.get? name).map (fun a => ⟨a.ty, a.isPub⟩)

/-- A variable of the root scope. -/
def rootVariable? (e : Environment) (name : String) : Option Variable :=
  e.scopes.root.bindings.get? name

/-- The members of a class or entity declared here. -/
def members? (e : Environment) (kind : NamedKind) (name : String) : Option Members :=
  match kind with
  | .classDecl => (e.classes.get? name).map (·.members)
  | .entityDecl => (e.entities.get? name).map (·.members)

/-- Change the members of a class or entity declared here. -/
def modifyMembers (e : Environment) (kind : NamedKind) (name : String) (f : Members → Members) :
    Environment :=
  match kind with
  | .classDecl =>
    { e with classes := e.classes.modify name fun c => { c with members := f c.members } }
  | .entityDecl =>
    { e with entities := e.entities.modify name fun c => { c with members := f c.members } }

end Environment

end HybroidSema
