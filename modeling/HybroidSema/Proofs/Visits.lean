import HybroidSema.Check.Tree

/-!
# What a walk visits

A walk comes to each part of a tree in some state, after what stands before that part was walked and
inside the scopes that were opened around it. Both can be read off the recursion: a part is reached
by running the beginning of the check, up to the call that walks the part.

* `Region`: what opens a scope around a part.
* `Task`: a call of one of the functions of the recursion.
* `taskParts`: the calls that a call makes, each with what is run before it.
* `Visits`: the parts of parts. The regions around a part are listed with the innermost first.
-/

namespace HybroidSema.Check

/-! ## Regions and tasks -/

/-- What a scope is opened for. A block is a branch, or what collects branches. -/
inductive Region where
  | function
  /-- The arms of a match expression. -/
  | arms
  /-- The body of a `repeat`, `while` or `for`. -/
  | loop
  | tick
  | block
  /-- The body of a class or entity. -/
  | container (ref : DeclRef) (kind : NamedKind)
  /-- The initializers of one declaration of fields. -/
  | initializer
deriving DecidableEq

/-- A call of one of the functions that walk a tree. -/
inductive Task where
  | expr (e : Expr) (hint : Option Ty)
  | values (es : List Expr) (hints : List Ty)
  | elements (es : List Expr) (reference : Option Ty)
  | mapEntries (es : List MapEntry) (keys : List String) (reference : Option Ty)
  | unchecked (es : List Expr)
  | patterns (es : List Expr) (subject : Ty)
  | matchArms (arms : List MatchArm) (subject : Ty)
  | body (stmts : List Stmt) (reported : Bool)
  | stmt (s : Stmt)
  | places (es : List Expr)
  | elseIfs (branches : List ElseIf)
  | elseBody (otherwise : Option (List Stmt)) (narrowings : List Narrowing)
  | repeatPart (part : Option Expr) (ty : Ty) (span : Span)
  | initializers (decls : List VariableDecl) (owner : DeclRef) (kind : NamedKind)
      (members : Members)
  | constructorBody (decl : Option ConstructorDecl) (signature : Option Signature)
  | methodBodies (decls : List FunctionDecl) (members : Members)
  | firstSpawn (decls : List LifecycleDecl) (entity : EntityInfo)
  | otherLifecycles (decls : List LifecycleDecl) (entity : EntityInfo)
      (spawned : Option LifecycleDecl) (seen : List LifecycleKind)

/-- What is run before a part, and the part with the regions that were entered. There is none if the
walk leaves the part out. -/
abbrev Part := Check (Option (List Region × Task))

namespace Part

/-- A part in the scope that is open. -/
def here (task : Task) : Part := return some ([], task)

/-- A part inside regions that were entered before it. -/
def inside (regions : List Region) (task : Task) : Part := return some (regions, task)

/-- No part. -/
def skip : Part := return none

/-- The arguments of a call, after its generic arguments. -/
def arguments (signature : Signature) (generics : List TypeExpr) (args : List Expr) : Part := do
  let _ ← resolveTypes generics
  here (.values args (hintsOf signature.params))

/-- The body of a function, after its parameters were bound. -/
def functionBody (signature : Signature) (params : List Param) (stmts : List Stmt) : Part := do
  modifyScopes (·.pushFunction { generics := signature.generics, returns := signature.returns })
  bindParams params signature.params
  inside [.function] (.body stmts false)

/-- A branch inside the given regions, after its narrowings were declared. -/
def branch (narrowings : List Narrowing) (negated : Bool) (stmts : List Stmt)
    (around : List Region) : Part := do
  modifyScopes (·.push .plain .empty)
  declareNarrowings narrowings negated
  inside (.block :: around) (.body stmts false)

/-- The body of a loop, after its variables were bound. -/
def loopBody (region : Region) (permits : Permissions) (bindings : List (Ident × Value))
    (narrowings : List Narrowing) (stmts : List Stmt) : Part := do
  modifyScopes (·.push .loop permits)
  bindings.forM fun (id, value) =>
    declare { name := id.name, value := value, span := id.span } "variable"
  declareNarrowings narrowings false
  inside [region] (.body stmts false)

/-- A part of the body of a class or entity, if that is walked. -/
def containerPart {γ : Type} (what : String) (span : Span) (find : Check (Option γ))
    (tag : γ → ScopeTag) (members : γ → Members) (part : γ → Part) : Part := do
  let found ← if ← atRoot what span then find else pure none
  match found with
  | none => skip
  | some info =>
    modifyScopes (·.push (tag info) { selfRef := true })
    bindMembers (members info)
    part info

/-- A part of the body of a class, given the class and its region. -/
def classPart (name : Ident) (span : Span) (part : ClassInfo → List Region → Part) : Part :=
  containerPart "class" span (ownClass? name) (fun info => .classBody info.ty) (·.members)
    fun info => part info [.container info.ty .classDecl]

/-- A part of the body of an entity, given the entity and its region. -/
def entityPart (name : Ident) (span : Span) (part : EntityInfo → List Region → Part) : Part :=
  containerPart "entity" span (ownEntity? name) (fun info => .entityBody info.ty) (·.members)
    fun info => part info [.container info.ty .entityDecl]

/-- A condition and its narrowings. -/
def condition (e : Expr) : Check (List Narrowing) := do
  let (e, value) ← single (expr e none)
  conditionNarrowings e value

end Part

/-! ## Parts -/

open HybroidSema.Check.Part

/-- The parts of an expression. -/
def exprParts (hint : Option Ty) : Expr → List Part
  | .literal _ | .ident _ | .builtin _ | .envAccess _ _ _ | .self _ _ | .error _ => []
  | .unary _ operand _ => [here (.expr operand none)]
  | .binary left _ right _ =>
    [here (.expr left none),
      do
        let (_, value) ← single (expr left none)
        here (.expr right (some value.ty))]
  | .group inner _ => [here (.expr inner hint)]
  | .list elems span =>
    [do
      let hinted := hint.bind (Ty.elemOf? .list)
      checkKnown elems.isEmpty hinted span
      here (.elements elems hinted)]
  | .map entries span =>
    [do
      let hinted := hint.bind (Ty.elemOf? .map)
      checkKnown entries.isEmpty hinted span
      here (.mapEntries entries [] hinted)]
  | .call caller generics args _ _ =>
    [here (.expr caller none),
      do
        let (caller, callee) ← single (expr caller none)
        match callee with
        | .function signature => arguments signature generics args
        | callee =>
          if !callee.isInvalid then report (.invalidCallerType callee.ty) caller.span
          here (.unchecked args)]
  | .methodCall receiver owner kind method generics args _ _ =>
    [here (.expr receiver none),
      do
        let _ ← single (expr receiver none)
        match ← calledMethod owner kind method with
        | .found signature => arguments signature generics args
        | .missing => here (.unchecked args)
        | .ownerless => skip]
  | .field target _ _ _ => [here (.expr target none)]
  | .member target index _ =>
    [here (.expr target none),
      do
        let _ ← single (expr target none)
        here (.expr index none)]
  | .new ty generics args _ =>
    [do
      match ← constructed ty .classDecl "new" with
      | (_, some signature) => arguments signature generics args
      | (_, none) => here (.unchecked args)]
  | .spawn ty generics args _ =>
    [do
      match ← constructed ty .entityDecl "spawn" with
      | (_, some signature) => arguments signature generics args
      | (_, none) => here (.unchecked args)]
  | .function params returns stmts _ =>
    [do
      let signature ← resolveSignature [] params returns
      functionBody signature params stmts]
  | .matching subject arms _ _ =>
    [here (.expr subject none),
      do
        let (_, value) ← single (expr subject none)
        modifyScopes (·.push (.matchExpr {}) { yields := true })
        inside [.arms] (.matchArms arms value.ty)]
  | .entityTest value _ _ _ _ _ => [here (.expr value none)]

/-- The parts of a statement. -/
def stmtParts : Stmt → List Part
  | .env _ | .enumDecl _ | .aliasDecl _ | .breaking _ | .continuing _ | .use _ | .error _ => []
  | .variable ⟨_, ty, exprs, isPub, isConst, span⟩ =>
    [do
      if isPub then
        if !(← scopes).isRoot then report .publicDeclarationInLocalScope span
      if isConst && ty.isSome then report .unnecessaryTypeInConstDeclaration span
      let declared ← resolveType? ty
      if exprs.isEmpty then skip
      else here (.values exprs (List.replicate exprs.length (declared.getD .invalid)))]
  | .function ⟨name, generics, params, returns, stmts, isPub, span⟩ =>
    [do
      let signature ← functionSignature name generics params returns isPub span
      functionBody signature params stmts]
  | .classDecl ⟨name, _, fields, methods, constructor, span⟩ =>
    [classPart name span fun info regions =>
        inside regions (.initializers fields info.ty .classDecl info.members),
      classPart name span fun info regions => do
        let _ ← initializers fields info.ty .classDecl info.members
        inside regions (.constructorBody constructor info.constructor),
      classPart name span fun info regions => do
        let _ ← initializers fields info.ty .classDecl info.members
        let _ ← constructorBody constructor info.constructor
        inside regions (.methodBodies methods info.members)]
  | .entityDecl ⟨name, _, fields, methods, functions, span⟩ =>
    [entityPart name span fun info regions =>
        inside regions (.initializers fields info.ty .entityDecl info.members),
      entityPart name span fun info regions => do
        let _ ← initializers fields info.ty .entityDecl info.members
        inside regions (.firstSpawn functions info),
      entityPart name span fun info regions => do
        let _ ← initializers fields info.ty .entityDecl info.members
        let (spawned, seen) ← firstSpawn functions info
        inside regions (.otherLifecycles functions info spawned seen),
      entityPart name span fun info regions => do
        let _ ← initializers fields info.ty .entityDecl info.members
        let (spawned, seen) ← firstSpawn functions info
        let _ ← otherLifecycles functions info spawned seen
        inside regions (.methodBodies methods info.members)]
  | .assign targets _ exprs _ =>
    [here (.places targets),
      do
        let (_, places) ← places targets
        here (.values exprs (places.map Value.ty))]
  | .ifChain e stmts elseifs otherwise _ =>
    [here (.expr e none),
      do
        let narrowings ← condition e
        modifyScopes (·.push (.multiPath {}) .empty)
        branch narrowings false stmts [.block],
      do
        let narrowings ← condition e
        modifyScopes (·.push (.multiPath {}) .empty)
        let _ ← inBranch do
          declareNarrowings narrowings false
          body stmts false
        inside [.block] (.elseIfs elseifs),
      do
        let narrowings ← condition e
        modifyScopes (·.push (.multiPath {}) .empty)
        let _ ← inBranch do
          declareNarrowings narrowings false
          body stmts false
        let _ ← elseIfs elseifs
        inside [.block] (.elseBody otherwise narrowings)]
  | .repeatLoop iterator start skip counter stmts span =>
    [here (.expr iterator none),
      do
        let (iterator, value) ← single (expr iterator none)
        let ty ← repeatType iterator value
        here (.repeatPart start ty span),
      do
        let (iterator, value) ← single (expr iterator none)
        let ty ← repeatType iterator value
        let _ ← repeatPart start ty span
        here (.repeatPart skip ty span),
      do
        let (iterator, value) ← single (expr iterator none)
        let ty ← repeatType iterator value
        let _ ← repeatPart start ty span
        let _ ← repeatPart skip ty span
        loopBody .loop .ofLoop (counter.toList.map (·, ty.toValue)) [] stmts]
  | .whileLoop e stmts _ =>
    [here (.expr e none),
      do
        let narrowings ← condition e
        loopBody .loop .ofLoop [] narrowings stmts]
  | .forLoop key value iterator stmts span =>
    [here (.expr iterator none),
      do
        let (iterator, found) ← single (expr iterator none)
        let (keyValue, elemValue) ← iterated iterator found
        let key ← forKey key span
        loopBody .loop .ofLoop ((key, keyValue) :: value.toList.map (·, elemValue)) [] stmts]
  | .tick counter stmts _ =>
    [loopBody .tick .empty (counter.toList.map (·, .number none)) [] stmts]
  | .matching subject arms _ =>
    [here (.expr subject none),
      do
        let (_, value) ← single (expr subject none)
        modifyScopes (·.push (.multiPath {}) .empty)
        inside [.block] (.matchArms arms value.ty)]
  | .returning exprs span =>
    [do
      if ← exitAllowed { returns := true } "return" span then
        let expected ← returnTypes
        here (.values exprs expected)
      else here (.values exprs [])]
  | .yielding exprs span =>
    [do
      if ← exitAllowed { yields := true } "yield" span then
        let (_, known) ← yieldTarget
        here (.values exprs (known.getD []))
      else here (.values exprs [])]
  | .destroy target generics args _ =>
    [here (.expr target none),
      do
        let (target, value) ← single (expr target none)
        match ← destroyer? target value with
        | some signature => arguments signature generics args
        | none => here (.unchecked args)]
  | .expr e => [here (.expr e none)]

/-- The parts of a call: those of the first of several trees, and the rest of them. -/
def taskParts : Task → List Part
  | .expr e hint => exprParts hint e
  | .stmt s => stmtParts s
  | .values [] _ | .elements [] _ | .mapEntries [] _ _ | .unchecked [] | .patterns [] _
  | .matchArms [] _ | .body [] _ | .places [] | .elseIfs [] | .elseBody none _
  | .repeatPart none _ _ | .initializers [] _ _ _ | .constructorBody none _
  | .constructorBody _ none | .methodBodies [] _ | .firstSpawn [] _ | .otherLifecycles [] _ _ _ =>
    []
  | .values (e :: rest) hints =>
    [here (.expr e hints.head?),
      do
        let (e, value) ← expr e hints.head?
        if !rest.isEmpty then
          let _ ← expectSingle value e.span
        here (.values rest hints.tail)]
  | .elements (e :: rest) reference =>
    [here (.expr e reference),
      do
        let (e, value) ← single (expr e reference)
        let ty ← elementType reference value.ty e.span
        here (.elements rest (some ty))]
  | .mapEntries (⟨key, e⟩ :: rest) keys reference =>
    [do
        if keys.contains key.name then report (.duplicateElement key.name) key.span
        here (.expr e reference),
      do
        if keys.contains key.name then report (.duplicateElement key.name) key.span
        let (e, value) ← single (expr e reference)
        let ty ← elementType reference value.ty e.span
        here (.mapEntries rest (key.name :: keys) (some ty))]
  | .unchecked (e :: rest) =>
    [here (.expr e none),
      do
        let _ ← expr e none
        here (.unchecked rest)]
  | .patterns (e :: rest) subject =>
    [here (.expr e (some subject)),
      do
        let (e, value) ← single (expr e (some subject))
        if !value.ty.agrees subject then report (.invalidCaseType subject value.ty) e.span
        here (.patterns rest subject)]
  | .matchArms (⟨pats, isDefault, stmts, span⟩ :: rest) subject =>
    let beforeBody : Check Unit :=
      if isDefault then
        if !rest.isEmpty then report .invalidDefaultCasePlacement span else pure ()
      else do
        let _ ← patterns pats subject
        clearNarrowings
    [if isDefault then skip else here (.patterns pats subject),
      do
        beforeBody
        branch [] false stmts [],
      do
        beforeBody
        let _ ← inBranch (body stmts false)
        here (.matchArms rest subject)]
  | .body (first :: rest) reported =>
    [here (.stmt first),
      do
        let _ ← stmt first
        clearNarrowings
        match rest with
        | [] => skip
        | next :: others =>
          if ← alwaysLeaves then
            if !reported then report .unreachableCode (runSpan next others)
            if (← get).session.config.prune then skip else here (.body rest true)
          else here (.body rest reported)]
  | .places (e :: rest) =>
    [do
        let _ ← assignLocal e
        here (.expr e none),
      do
        let isLocal ← assignLocal e
        let (resolved, _) ← single (expr e none)
        finishPlace e resolved isLocal
        here (.places rest)]
  | .elseIfs (⟨e, stmts, _⟩ :: rest) =>
    [here (.expr e none),
      do
        let narrowings ← condition e
        branch narrowings false stmts [],
      do
        let narrowings ← condition e
        let _ ← inBranch do
          declareNarrowings narrowings false
          body stmts false
        here (.elseIfs rest)]
  | .elseBody (some stmts) narrowings => [branch narrowings true stmts []]
  | .repeatPart (some e) ty _ => [here (.expr e (some ty))]
  | .initializers (⟨names, _, exprs, _, _, span⟩ :: rest) owner kind members =>
    let registered := registeredValues members names
    [if exprs.isEmpty then skip
      else do
        modifyScopes (·.pushRestricted .plain { selfRef := true })
        inside [.initializer] (.values exprs (initializerHints registered)),
      do
        if !exprs.isEmpty then
          let ((_, given), _) ← inScope (·.pushRestricted .plain { selfRef := true })
            (values exprs (initializerHints registered))
          let _ ← checkValueCount names.length given span "field"
          checkInitializers owner kind names registered given
        here (.initializers rest owner kind members)]
  | .constructorBody (some ⟨_, params, stmts, _⟩) (some signature) =>
    [functionBody signature params stmts]
  | .methodBodies (⟨name, generics, params, returns, stmts, _, span⟩ :: rest) members =>
    [do
        let signature ← methodSignature members name generics params returns
        functionBody signature params stmts,
      do
        let signature ← methodSignature members name generics params returns
        let _ ← inFunction signature params span (body stmts false)
        here (.methodBodies rest members)]
  | .firstSpawn (⟨kind, generics, params, returns, stmts, _⟩ :: rest) entity =>
    [if kind = .spawn then do
        let (signature, _) ← walkedSignature entity [] kind generics params returns
        functionBody signature params stmts
      else here (.firstSpawn rest entity)]
  | .otherLifecycles (⟨kind, generics, params, returns, stmts, span⟩ :: rest) entity spawned seen =>
    if spawned.isSome && kind == .spawn then [here (.otherLifecycles rest entity none seen)]
    else
      [do
          let (signature, _) ← walkedSignature entity seen kind generics params returns
          functionBody signature params stmts,
        do
          let (signature, isFirst) ← walkedSignature entity seen kind generics params returns
          let _ ← inFunction signature params span (body stmts false)
          if isFirst && kind == .spawn then checkFieldsInitialized span
          here (.otherLifecycles rest entity spawned (if isFirst then kind :: seen else seen))]

/-! ## Visits -/

/-- From a call in one state the walk comes to another call in another state, inside the given
regions. -/
inductive Visits (c : Context) : Task → State → List Region → Task → State → Prop
  | here (task : Task) (s : State) : Visits c task s [] task s
  | into {task task' inner : Task} {s s' t : State} {part : Part} {regions around : List Region}
      (hpart : part ∈ taskParts task) (hrun : part c s = .ok (some (around, task'), s'))
      (h : Visits c task' s' regions inner t) : Visits c task s (regions ++ around) inner t

/-- What a part comes to, the whole comes to. -/
theorem Visits.trans {c : Context} {task task' inner : Task} {s s' t : State}
    {around regions : List Region} (h : Visits c task s around task' s')
    (h' : Visits c task' s' regions inner t) : Visits c task s (regions ++ around) inner t := by
  induction h with
  | here task s =>
    rw [List.append_nil]
    exact h'
  | into hpart hrun _ ih =>
    rw [← List.append_assoc]
    exact .into hpart hrun (ih h')

/-- The walk of a program. The leading `env` declaration is not walked. -/
def programTask : Program → Task
  | .env _ :: rest => .body rest false
  | stmts => .body stmts false

end HybroidSema.Check
