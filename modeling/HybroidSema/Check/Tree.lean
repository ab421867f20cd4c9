import HybroidSema.Check.Access
import HybroidSema.Check.Call
import HybroidSema.Check.Container
import HybroidSema.Check.Declaration
import HybroidSema.Check.Exit
import HybroidSema.Check.Narrow
import HybroidSema.Check.Place

/-!
# Checking a tree

The walk over expressions, statements and bodies, by recursion on the tree. Every function hands
back the resolved node with what it learned. What is done at a node once its parts are checked is
defined in the modules before this one.

* `Check.expr` takes the type that the context expects, which empty lists and maps need.
* `Check.values` checks a list of expressions whose last one may spread.
* `Check.body` checks statements in order. Statements after a certain exit are reported once, and
  removed if the session prunes.
-/

namespace HybroidSema.Check

/-! ## Steps around the recursion -/

/-- The span of a run of statements. -/
def runSpan (first : Stmt) (rest : List Stmt) : Span :=
  first.span.extendTo (rest.getLast?.getD first).span

/-- Whether every path leaves the innermost scope. -/
def alwaysLeaves : Check Bool := do
  return (← scopes).current.exits.always

/-- Report a literal element whose type differs from the ones before, which decide the element
type unless the context does. -/
def elementType (reference : Option Ty) (got : Ty) (span : Span) : Check Ty := do
  match reference with
  | none => return got
  | some expected =>
    if !expected.agrees got then report (.mixedMapOrListContents expected got) span
    return expected

/-- Report an empty literal whose element type is not known. -/
def checkKnown (isEmpty : Bool) (hint : Option Ty) (span : Span) : Check Unit := do
  if isEmpty && hint.isNone then report .unknownListOrMapContents span

/-- Run a check in a scope of its own, and hand back the exits of that scope. -/
def inBranch {α : Type} (body : Check α) : Check (α × Exits) := do
  let (result, closed) ← inScope (·.push .plain .empty) body
  return (result, (closed.map (·.exits)).getD .empty)

/-- Run a check inside a loop, after binding its variables. -/
def inLoop {α : Type} (permits : Permissions) (bindings : List (Ident × Value))
    (body : Check α) : Check α := do
  let (result, _) ← inScope (·.push .loop permits) do
    bindings.forM fun (id, value) =>
      declare { name := id.name, value := value, span := id.span } "variable"
    body
  return result

/-- Which arms a match has: whether there is an `else` arm, and how many others. -/
structure ArmCount where
  hasDefault : Bool := false
  cases : Nat := 0

/-- The value of a match expression after its arms, and the number of its values. -/
def matchValue (arms : ArmCount) (closed : Option Scope) (span : Span) : Check (Nat × Value) := do
  let tag := (closed.bind (·.tag.matchExpr?)).getD {}
  if !arms.hasDefault then report .defaultCaseMissing span
  if arms.cases == 0 then report .insufficientCases span
  if arms.hasDefault && !tag.paths.finish.byYield then
    report (.notAllCodePathsExit "yield") span
  match tag.yields with
  | none => return (0, .invalid)
  | some types => return (types.length, callValue types)

/-- The type that the parts of a `repeat` must have. -/
def repeatType (iterator : Expr) (value : Value) : Check Ty := do
  let ty := value.ty
  if ty.isNumeric || ty.isInvalid then return ty
  report (.typeMismatch .number ty "repeat") iterator.span
  return .invalid

/-- The values of the key and value variables of a `for`. -/
def iterated (iterator : Expr) (value : Value) : Check (Value × Value) := do
  match value with
  | .list elem => return (.number none, elem.toValue)
  | .map elem => return (.text, elem.toValue)
  | .invalid => return (.invalid, .invalid)
  | value =>
    report (.typeMismatch (.list .object) value.ty "for loop") iterator.span
    return (.invalid, .invalid)

/-- The key variable of a `for`: a made-up one if none is written. -/
def forKey (key : Option Ident) (span : Span) : Check Ident := do
  match key with
  | some key => return key
  | none =>
    let state ← get
    let (name, session) := state.session.syntheticName "key"
    set { state with session := session }
    return ⟨name, span⟩

/-- The signature to check a `destroy` against, if there is one. What is no declared entity is
reported. -/
def destroyer? (target : Expr) (value : Value) : Check (Option Signature) := do
  match value with
  | .entityObject ref =>
    let info ← entity? ref
    return info.bind (·.destroyer)
  | .invalid => return none
  | value =>
    alert
      { kind := .typeMismatch .rawEntity value.ty "destroy"
        span := target.span
        note := some "only entities declared in an environment can be destroyed" }
    return none

/-- A class that the declaration at a position registered. -/
def ownClass? (name : Ident) : Check (Option ClassInfo) := do
  match (← environment).classes.get? name.name with
  | none =>
    fail (.unregisteredContainer name.name "new")
    return none
  | some info => return if info.span = name.span then some info else none

/-- An entity that the declaration at a position registered. -/
def ownEntity? (name : Ident) : Check (Option EntityInfo) := do
  match (← environment).entities.get? name.name with
  | none =>
    fail (.unregisteredContainer name.name "spawn")
    return none
  | some info => return if info.span = name.span then some info else none

/-! ## The recursion -/

mutual
/-- Check an expression, with the type that the context expects. -/
def expr (e : Expr) (hint : Option Ty) : Check (Expr × Value) :=
  match e with
  | .literal lit => return (.literal lit, lit.toValue)
  | .ident id => identifier id
  | .builtin id => do
    let value ← builtinValue id
    return (.builtin id, value)
  | .envAccess env name span => qualifiedName env name span
  | .unary op operand span => do
    let (operand, value) ← single (expr operand none)
    let value ← unaryValue op value span
    return (.unary op operand span, value)
  | .binary left op right span => do
    let before := (← get).narrowings.length
    let (left, leftValue) ← single (expr left none)
    let (right, rightValue) ← single (expr right (some leftValue.ty))
    if op == .or then dropUnderOr before span
    let value ← binaryValue op leftValue rightValue span
    return (.binary left op right span, value)
  | .group inner span => do
    let (inner, value) ← expr inner hint
    return (.group inner span, value)
  | .list elems span => do
    let hinted := hint.bind (Ty.elemOf? .list)
    checkKnown elems.isEmpty hinted span
    let (elems, reference) ← elements elems hinted
    return (.list elems span, .list (reference.getD .invalid))
  | .map entries span => do
    let hinted := hint.bind (Ty.elemOf? .map)
    checkKnown entries.isEmpty hinted span
    let (entries, reference) ← mapEntries entries [] hinted
    return (.map entries span, .map (reference.getD .invalid))
  | .call caller generics args returnAmount span => do
    let (caller, callee) ← single (expr caller none)
    match callee with
    | .function signature =>
      let (args, returns) ← call signature generics (fun hints => values args hints) span
      let node := callNode caller signature.owner generics args returns.length span
      return (node, callValue returns)
    | callee =>
      if !callee.isInvalid then report (.invalidCallerType callee.ty) caller.span
      let args ← unchecked args
      return (.call caller generics args returnAmount span, .invalid)
  | .methodCall receiver owner kind method generics args returnAmount span => do
    let (receiver, _) ← single (expr receiver none)
    match ← calledMethod owner kind method with
    | .found signature =>
      let (args, returns) ← call signature generics (fun hints => values args hints) span
      return (.methodCall receiver owner kind method generics args returns.length span,
        callValue returns)
    | .missing =>
      let args ← unchecked args
      return (.methodCall receiver owner kind method generics args returnAmount span, .invalid)
    | .ownerless =>
      return (.methodCall receiver owner kind method generics args returnAmount span, .invalid)
  | .field target field index span => do
    let (target, value) ← single (expr target none)
    fieldAccess target value field index span
  | .member target index span => do
    let (target, value) ← single (expr target none)
    let (index, indexValue) ← single (expr index none)
    let value ← elementValue target value index indexValue
    return (.member target index span, value)
  | .self owner span => do
    let (found, value) ← selfValue span
    return (.self (found <|> owner) span, value)
  | .new ty generics args span => do
    match ← constructed ty .classDecl "new" with
    | (ref, some signature) =>
      let (args, _) ← call signature generics (fun hints => values args hints) span
      return (.new ty generics args span, (ref.map Value.classObject).getD .invalid)
    | (ref, none) =>
      let args ← unchecked args
      return (.new ty generics args span, (ref.map Value.classObject).getD .invalid)
  | .spawn ty generics args span => do
    match ← constructed ty .entityDecl "spawn" with
    | (ref, some signature) =>
      let (args, _) ← call signature generics (fun hints => values args hints) span
      return (.spawn ty generics args span, (ref.map Value.entityObject).getD .invalid)
    | (ref, none) =>
      let args ← unchecked args
      return (.spawn ty generics args span, (ref.map Value.entityObject).getD .invalid)
  | .function params returns stmts span => do
    let signature ← resolveSignature [] params returns
    let stmts ← inFunction signature params span (body stmts false)
    return (.function params returns stmts span, .function signature)
  | .matching subject arms _ span => do
    let (subject, value) ← single (expr subject none)
    let ((arms, count), closed) ← inScope (·.push (.matchExpr {}) { yields := true })
      (matchArms arms value.ty)
    let (returnAmount, value) ← matchValue count closed span
    return (.matching subject arms returnAmount span, value)
  | .entityTest value ty binding negated official span => do
    let (value, tested) ← single (expr value none)
    checkType .rawEntity tested.ty "entity evaluation" value.span
    let isEngine ← entityTest ty binding negated span
    return (.entityTest value ty binding negated (official || isEngine) span, .bool)
  | .error span => return (.error span, .invalid)
  termination_by structural e

/-- Check a list of expressions of which the last one may spread. The hints are offered position
by position, and every value has the position of its expression. -/
def values (es : List Expr) (hints : List Ty) : Check (List Expr × List (Value × Span)) :=
  match es with
  | [] => return ([], [])
  | e :: rest => do
    let (e, value) ← expr e hints.head?
    let spread ←
      if rest.isEmpty then pure value.toList
      else do
        let value ← expectSingle value e.span
        pure [value]
    let (rest, others) ← values rest hints.tail
    return (e :: rest, spread.map (·, e.span) ++ others)
  termination_by structural es

/-- Check the elements of a list literal against the type of the first, or the one expected. -/
def elements (es : List Expr) (reference : Option Ty) : Check (List Expr × Option Ty) :=
  match es with
  | [] => return ([], reference)
  | e :: rest => do
    let (e, value) ← single (expr e reference)
    let ty ← elementType reference value.ty e.span
    let (rest, reference) ← elements rest (some ty)
    return (e :: rest, reference)
  termination_by structural es

/-- Check the entries of a map literal, after the given keys. -/
def mapEntries (es : List MapEntry) (keys : List String) (reference : Option Ty) :
    Check (List MapEntry × Option Ty) :=
  match es with
  | [] => return ([], reference)
  | ⟨key, e⟩ :: rest => do
    if keys.contains key.name then report (.duplicateElement key.name) key.span
    let (e, value) ← single (expr e reference)
    let ty ← elementType reference value.ty e.span
    let (rest, reference) ← mapEntries rest (key.name :: keys) (some ty)
    return (⟨key, e⟩ :: rest, reference)
  termination_by structural es

/-- Walk the arguments of a call that cannot be checked. -/
def unchecked (es : List Expr) : Check (List Expr) :=
  match es with
  | [] => return []
  | e :: rest => do
    let (e, _) ← expr e none
    let rest ← unchecked rest
    return e :: rest
  termination_by structural es

/-- Check the patterns of a match arm against the type of the subject. -/
def patterns (es : List Expr) (subject : Ty) : Check (List Expr) :=
  match es with
  | [] => return []
  | e :: rest => do
    let (e, value) ← single (expr e (some subject))
    if !value.ty.agrees subject then report (.invalidCaseType subject value.ty) e.span
    let rest ← patterns rest subject
    return e :: rest
  termination_by structural es

/-- Check the arms of a match, each body in a scope of its own. -/
def matchArms (arms : List MatchArm) (subject : Ty) : Check (List MatchArm × ArmCount) :=
  match arms with
  | [] => return ([], {})
  | ⟨pats, isDefault, stmts, span⟩ :: rest => do
    let pats ←
      if isDefault then do
        if !rest.isEmpty then report .invalidDefaultCasePlacement span
        pure pats
      else do
        let pats ← patterns pats subject
        clearNarrowings
        pure pats
    let (stmts, _) ← inBranch (body stmts false)
    let (rest, count) ← matchArms rest subject
    let count : ArmCount :=
      if isDefault then { count with hasDefault := true }
      else { count with cases := count.cases + 1 }
    return (⟨pats, isDefault, stmts, span⟩ :: rest, count)
  termination_by structural arms

/-- Check statements in order. Statements after a certain exit are reported, unless they were
before, and removed if the session prunes. -/
def body (stmts : List Stmt) (reported : Bool) : Check (List Stmt) :=
  match stmts with
  | [] => return []
  | first :: rest => do
    let first ← stmt first
    clearNarrowings
    match rest with
    | [] => return [first]
    | next :: others =>
      if ← alwaysLeaves then
        if !reported then report .unreachableCode (runSpan next others)
        if (← get).session.config.prune then return [first]
        let rest ← body rest true
        return first :: rest
      else
        let rest ← body rest reported
        return first :: rest
  termination_by structural stmts

/-- Check a statement. -/
def stmt (s : Stmt) : Check Stmt :=
  match s with
  | .env decl => do
    report .environmentRedeclaration decl.span
    return .env decl
  | .variable ⟨names, ty, exprs, isPub, isConst, span⟩ => do
    if isPub then
      if !(← scopes).isRoot then report .publicDeclarationInLocalScope span
    if isConst && ty.isSome then report .unnecessaryTypeInConstDeclaration span
    let declared ← resolveType? ty
    let d : Declaration := ⟨names, declared, isPub, isConst, span⟩
    let (exprs, given) ←
      if exprs.isEmpty then defaultValues d
      else do
        let hints := List.replicate exprs.length (declared.getD .invalid)
        let (exprs, given) ← values exprs hints
        let _ ← checkValueCount names.length given span "declaration"
        pure (exprs, given.map Prod.fst)
    declareNames d names given (inlinedLiterals names exprs)
    return .variable ⟨names, ty, exprs, isPub, isConst, span⟩
  | .function ⟨name, generics, params, returns, stmts, isPub, span⟩ => do
    let signature ← functionSignature name generics params returns isPub span
    let stmts ← inFunction signature params span (body stmts false)
    return .function ⟨name, generics, params, returns, stmts, isPub, span⟩
  | .classDecl ⟨name, isPub, fields, methods, constructor, span⟩ => do
    let found ← if ← atRoot "class" span then ownClass? name else pure none
    match found with
    | none => return .classDecl ⟨name, isPub, fields, methods, constructor, span⟩
    | some info =>
      let ((fields, constructor, methods), _) ←
        inScope (·.push (.classBody info.ty) { selfRef := true }) do
          bindMembers info.members
          let fields ← initializers fields info.ty .classDecl info.members
          let constructor ← constructorBody constructor info.constructor
          let methods ← methodBodies methods info.members
          pure (fields, constructor, methods)
      return .classDecl ⟨name, isPub, fields, methods, constructor, span⟩
  | .entityDecl ⟨name, isPub, fields, methods, functions, span⟩ => do
    let found ← if ← atRoot "entity" span then ownEntity? name else pure none
    match found with
    | none => return .entityDecl ⟨name, isPub, fields, methods, functions, span⟩
    | some info =>
      let ((fields, functions, methods), _) ←
        inScope (·.push (.entityBody info.ty) { selfRef := true }) do
          bindMembers info.members
          let fields ← initializers fields info.ty .entityDecl info.members
          let (spawned, seen) ← firstSpawn functions info
          let functions ← otherLifecycles functions info spawned seen
          let methods ← methodBodies methods info.members
          pure (fields, functions, methods)
      return .entityDecl ⟨name, isPub, fields, methods, functions, span⟩
  | .enumDecl decl => do
    let _ ← atRoot "enum" decl.span
    return .enumDecl decl
  | .aliasDecl decl => do
    let _ ← atRoot "alias" decl.span
    return .aliasDecl decl
  | .assign targets op exprs span => do
    let (targets, places) ← places targets
    let (exprs, given) ← values exprs (places.map Value.ty)
    let _ ← checkValueCount places.length given span "assignment"
    checkAssigned op places given
    return .assign targets op exprs span
  | .ifChain condition stmts elseifs otherwise span => do
    let (condition, value) ← single (expr condition none)
    let narrowings ← conditionNarrowings condition value
    let ((stmts, exits, elseifs, otherwise), _) ←
      inScope (·.push (.multiPath {}) .empty) do
        let (stmts, exits) ← inBranch do
          declareNarrowings narrowings false
          body stmts false
        let elseifs ← elseIfs elseifs
        let otherwise ← elseBody otherwise narrowings
        pure (stmts, exits, elseifs, otherwise)
    if exits.always then declareNarrowings narrowings true
    return .ifChain condition stmts elseifs otherwise span
  | .repeatLoop iterator start skip counter stmts span => do
    let (iterator, value) ← single (expr iterator none)
    let ty ← repeatType iterator value
    let start ← repeatPart start ty span
    let skip ← repeatPart skip ty span
    let stmts ← inLoop .ofLoop (counter.toList.map (·, ty.toValue)) (body stmts false)
    return .repeatLoop iterator (some start) (some skip) counter stmts span
  | .whileLoop condition stmts span => do
    let (condition, value) ← single (expr condition none)
    let narrowings ← conditionNarrowings condition value
    let stmts ← inLoop .ofLoop [] do
      declareNarrowings narrowings false
      body stmts false
    return .whileLoop condition stmts span
  | .forLoop key value iterator stmts span => do
    let (iterator, found) ← single (expr iterator none)
    let (keyValue, elemValue) ← iterated iterator found
    let key ← forKey key span
    let bindings := (key, keyValue) :: value.toList.map (·, elemValue)
    let stmts ← inLoop .ofLoop bindings (body stmts false)
    return .forLoop (some key) value iterator stmts span
  | .tick counter stmts span => do
    let stmts ← inLoop .empty (counter.toList.map (·, .number none)) (body stmts false)
    return .tick counter stmts span
  | .matching subject arms span => do
    let (subject, value) ← single (expr subject none)
    let ((arms, count), _) ← inScope (·.push (.multiPath {}) .empty) do
      let (arms, count) ← matchArms arms value.ty
      if !count.hasDefault then modifyScopes (·.reportExits .empty)
      pure (arms, count)
    if count.cases == 0 then report .insufficientCases span
    return .matching subject arms span
  | .returning exprs span => do
    if ← exitAllowed { returns := true } "return" span then
      let expected ← returnTypes
      let (exprs, given) ← values exprs expected
      checkReturn expected given span
      return .returning exprs span
    else
      let (exprs, _) ← values exprs []
      return .returning exprs span
  | .yielding exprs span => do
    if ← exitAllowed { yields := true } "yield" span then
      let (position, known) ← yieldTarget
      let (exprs, given) ← values exprs (known.getD [])
      checkYield position known given span
      return .yielding exprs span
    else
      let (exprs, _) ← values exprs []
      return .yielding exprs span
  | .breaking span => do
    if ← exitAllowed { breaks := true } "break" span then markExit .ofBreak
    return .breaking span
  | .continuing span => do
    if ← exitAllowed { continues := true } "continue" span then markExit .ofContinue
    return .continuing span
  | .destroy target generics args span => do
    let (target, value) ← single (expr target none)
    match ← destroyer? target value with
    | some signature =>
      let (args, _) ← call signature generics (fun hints => values args hints) span
      return .destroy target generics args span
    | none =>
      let args ← unchecked args
      return .destroy target generics args span
  | .use decl => do
    if !(← scopes).isRoot then useEnvironment decl
    return .use decl
  | .expr e => do
    let (e, _) ← expr e none
    return .expr e
  | .error span => return .error span
  termination_by structural s

/-- Check the targets of an assignment. -/
def places (es : List Expr) : Check (List Expr × List Value) :=
  match es with
  | [] => return ([], [])
  | e :: rest => do
    let isLocal ← assignLocal e
    let (resolved, value) ← single (expr e none)
    finishPlace e resolved isLocal
    let (rest, others) ← places rest
    return (resolved :: rest, value :: others)
  termination_by structural es

/-- Check the `elseif` branches of a chain. -/
def elseIfs (branches : List ElseIf) : Check (List ElseIf) :=
  match branches with
  | [] => return []
  | ⟨condition, stmts, span⟩ :: rest => do
    let (condition, value) ← single (expr condition none)
    let narrowings ← conditionNarrowings condition value
    let (stmts, _) ← inBranch do
      declareNarrowings narrowings false
      body stmts false
    let rest ← elseIfs rest
    return ⟨condition, stmts, span⟩ :: rest
  termination_by structural branches

/-- Check the `else` branch of a chain. Without one, a path goes past the chain. -/
def elseBody (otherwise : Option (List Stmt)) (narrowings : List Narrowing) :
    Check (Option (List Stmt)) :=
  match otherwise with
  | none => do
    modifyScopes (·.reportExits .empty)
    return none
  | some stmts => do
    let (stmts, _) ← inBranch do
      declareNarrowings narrowings true
      body stmts false
    return some stmts
  termination_by structural otherwise

/-- Check the start or the step of a `repeat`, or fill in the literal 1. -/
def repeatPart (part : Option Expr) (ty : Ty) (span : Span) : Check Expr :=
  match part with
  | none => return ty.unitLiteral span
  | some e => do
    let (e, value) ← single (expr e (some ty))
    checkType ty value.ty "repeat" e.span
    return e
  termination_by structural part

/-- Check the initializers of fields. They cannot use `self`. -/
def initializers (decls : List VariableDecl) (owner : DeclRef) (kind : NamedKind)
    (members : Members) : Check (List VariableDecl) :=
  match decls with
  | [] => return []
  | ⟨names, ty, exprs, isPub, isConst, span⟩ :: rest => do
    let exprs ←
      if exprs.isEmpty then pure exprs
      else do
        let registered := registeredValues members names
        let ((exprs, given), _) ← inScope (·.pushRestricted .plain { selfRef := true })
          (values exprs (initializerHints registered))
        let _ ← checkValueCount names.length given span "field"
        checkInitializers owner kind names registered given
        pure exprs
    let rest ← initializers rest owner kind members
    return ⟨names, ty, exprs, isPub, isConst, span⟩ :: rest
  termination_by structural decls

/-- Check the body of a constructor, after which every field must have been assigned. -/
def constructorBody (decl : Option ConstructorDecl) (signature : Option Signature) :
    Check (Option ConstructorDecl) :=
  match decl, signature with
  | some ⟨generics, params, stmts, span⟩, some signature => do
    let stmts ← inFunction signature params span (body stmts false)
    checkFieldsInitialized span
    return some ⟨generics, params, stmts, span⟩
  | decl, _ => return decl
  termination_by structural decl

/-- Check the bodies of methods. -/
def methodBodies (decls : List FunctionDecl) (members : Members) : Check (List FunctionDecl) :=
  match decls with
  | [] => return []
  | ⟨name, generics, params, returns, stmts, isPub, span⟩ :: rest => do
    let signature ← methodSignature members name generics params returns
    let stmts ← inFunction signature params span (body stmts false)
    let rest ← methodBodies rest members
    return ⟨name, generics, params, returns, stmts, isPub, span⟩ :: rest
  termination_by structural decls

/-- Check the body of the first spawn function, after which every field must have been assigned.
The result is the resolved function and the kinds that were walked. -/
def firstSpawn (decls : List LifecycleDecl) (entity : EntityInfo) :
    Check (Option LifecycleDecl × List LifecycleKind) :=
  match decls with
  | [] => return (none, [])
  | ⟨kind, generics, params, returns, stmts, span⟩ :: rest =>
    if kind = .spawn then do
      let (signature, isFirst) ← walkedSignature entity [] kind generics params returns
      let stmts ← inFunction signature params span (body stmts false)
      if isFirst then checkFieldsInitialized span
      return (some ⟨kind, generics, params, returns, stmts, span⟩,
        if isFirst then [.spawn] else [])
    else firstSpawn rest entity
  termination_by structural decls

/-- Check the bodies of the other lifecycle functions in source order, given the first spawn
function. -/
def otherLifecycles (decls : List LifecycleDecl) (entity : EntityInfo)
    (spawned : Option LifecycleDecl) (seen : List LifecycleKind) : Check (List LifecycleDecl) :=
  match decls with
  | [] => return []
  | ⟨kind, generics, params, returns, stmts, span⟩ :: rest => do
    match spawned, kind with
    | some walked, .spawn =>
      let rest ← otherLifecycles rest entity none seen
      return walked :: rest
    | spawned, kind =>
      let (signature, isFirst) ← walkedSignature entity seen kind generics params returns
      let stmts ← inFunction signature params span (body stmts false)
      if isFirst && kind == .spawn then checkFieldsInitialized span
      let seen := if isFirst then kind :: seen else seen
      let rest ← otherLifecycles rest entity spawned seen
      return ⟨kind, generics, params, returns, stmts, span⟩ :: rest
  termination_by structural decls
end

/-! ## Programs -/

/-- Check a program after its declarations are registered. The leading `env` declaration is not a
statement to check. -/
def program (p : Program) : Check Program := do
  match p with
  | .env decl :: rest =>
    let rest ← body rest false
    return .env decl :: rest
  | stmts => body stmts false

end HybroidSema.Check
