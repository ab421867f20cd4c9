import HybroidSema.Proofs.Inference
import HybroidSema.Proofs.Plain
import HybroidSema.Proofs.Returns
import HybroidSema.Session.Build

/-!
# Default literals

A typed declaration without a value is initialized with the default literal of its type. The literal
is put into the tree unchecked, and the variable takes the written type. Had the literal been
written, its type would have been compared with the written one. The two ways come to the same for
every type but that of a function with parameters or returns, whose default literal is `fn() {}`.

* `inScope_pushFunction_eq`: a function scope in which nothing happens leaves no trace.
* `Ty.defaultValue` and `expr_defaultLiteral?`: the value of a default literal.
* `bindTyped`, `stmt_unvalued` and `stmt_defaults`: a declaration without a value, and one with the
  default literals written.
* `default_literals_agree`: where they come to the same.
* `analyze_accepts_default`: a declaration that is accepted without a value and refused with it.
-/

namespace HybroidSema

/-! ## Types with a default -/

namespace Ty

/-- The types that have a default literal. -/
inductive HasDefault : Ty → Prop
  | basic (p : Primitive) : HasDefault (.basic p)
  | fixed (kind : FixedKind) : HasDefault (.fixed kind)
  | container (kind : ContainerKind) (elem : Ty) : HasDefault (.container kind elem)
  | function (params returns : List Ty) (generics : List String) :
    HasDefault (.function params returns generics)

/-- Whether this is the type of a function with parameters or returns. -/
def hasParamsOrReturns : Ty → Bool
  | .function params returns _ => !(params.isEmpty && returns.isEmpty)
  | _ => false

/-- The value of the default literal of a type, where that type is expected. -/
def defaultValue : Ty → Value
  | .basic .number => .number (Binary64.ofLiteral? "0")
  | .function _ _ _ => .function {}
  | ty => ty.toValue

variable {ty : Ty} {span : Span} {e : Expr}

theorem hasDefault_of_defaultLiteral? (h : ty.defaultLiteral? span = some e) : ty.HasDefault := by
  cases ty with
  | basic p => exact .basic p
  | fixed kind => exact .fixed kind
  | container kind elem => exact .container kind elem
  | function params returns generics => exact .function params returns generics
  | _ => cases h

namespace HasDefault

theorem exists_literal (h : ty.HasDefault) (span : Span) :
    ∃ e, ty.defaultLiteral? span = some e := by
  cases h with
  | basic p => cases p <;> exact ⟨_, rfl⟩
  | fixed kind => exact ⟨_, rfl⟩
  | container kind elem => cases kind <;> exact ⟨_, rfl⟩
  | function params returns generics => exact ⟨_, rfl⟩

theorem ty_toValue (h : ty.HasDefault) : ty.toValue.ty = ty := by
  cases h with
  | basic p => cases p <;> rfl
  | fixed kind => rfl
  | container kind elem => cases kind <;> rfl
  | function params returns generics => rfl

theorem isPlain_defaultValue (h : ty.HasDefault) : ty.defaultValue.isPlain = true := by
  cases h with
  | basic p => cases p <;> rfl
  | fixed kind => rfl
  | container kind elem => cases kind <;> rfl
  | function params returns generics => rfl

/-- The default literal has the type that it stands for, unless that is the type of a function with
parameters or returns. -/
theorem agrees_defaultValue (h : ty.HasDefault) :
    ty.defaultValue.ty.agrees ty = !ty.hasParamsOrReturns := by
  cases h with
  | basic p => cases p <;> rfl
  | fixed kind => rfl
  | container kind elem => cases kind <;> exact agrees_self _
  | function params returns generics => cases params <;> cases returns <;> rfl

end HasDefault

end Ty

namespace Check

variable {α : Type} {c : Context} {s t : State} {env : Environment} {ty : Ty}

/-! ## The value of a default literal -/

/-- A function scope in which nothing happens leaves no trace. -/
theorem inScope_pushFunction_eq (h : s.own? c = some env) (tag : FuncTag) {body : Check α} {a : α}
    (hbody : ∀ t, t.own? c = some { env with scopes := env.scopes.pushFunction tag } →
      body c t = .ok (a, t)) :
    inScope (·.pushFunction tag) body c s =
      .ok ((a, some (env.scopes.pushFunction tag).current), s) := by
  have hopened : (s.modifyOwn c fun env =>
      { env with scopes := env.scopes.pushFunction tag }).own? c =
        some { env with scopes := env.scopes.pushFunction tag } := by
    rw [own?_modifyOwn, h]
    rfl
  have hclose : (env.scopes.pushFunction tag).close? =
      some ((env.scopes.pushFunction tag).current, env.scopes) := rfl
  rw [inScope, bind_apply_ok (modifyScopes_eq h _), bind_apply_ok (hbody _ hopened),
    bind_apply_ok (closeScope_eq hopened hclose), modifyOwn_modifyOwn, modifyOwn_eq_self h rfl]
  rfl

/-- A function without parameters, returns and statements changes nothing. -/
theorem expr_emptyFunction (h : s.own? c = some env) (span : Span) (hint : Option Ty) :
    expr (.function [] [] [] span) hint c s = .ok ((.function [] [] [] span, .function {}), s) := by
  have hsignature : resolveSignature [] [] [] c s = .ok ({}, s) :=
    (bind_apply_ok (rfl : distinctGenerics [] [] c s = .ok ([], s))).trans <|
      bind_apply_ok (inScope_pushFunction_eq h {} (a := ([], [])) fun _ _ => rfl)
  have hbody : inFunction {} [] span (body [] false) c s = .ok ([], s) := by
    refine bind_apply_ok (inScope_pushFunction_eq h _ (a := []) fun t ht => ?_)
    exact (bind_apply_ok (rfl : bindParams [] [] c t = .ok ((), t))).trans <|
      (bind_apply_ok (rfl : body [] false c t = .ok ([], t))).trans (bind_apply_ok (scopes_eq ht))
  exact (bind_apply_ok hsignature).trans (bind_apply_ok hbody)

/-- A default literal has its value where its type is expected. Nothing is reported, and the state
stays as it is. -/
theorem expr_defaultLiteral? (h : s.own? c = some env) {span : Span} {e : Expr}
    (hdefault : ty.defaultLiteral? span = some e) :
    expr e (some ty) c s = .ok ((e, ty.defaultValue), s) := by
  cases ty with
  | basic p => cases p <;> cases hdefault <;> rfl
  | fixed kind => cases hdefault; rfl
  | container kind elem => cases kind <;> cases hdefault <;> rfl
  | function params returns generics =>
    cases hdefault
    exact expr_emptyFunction h span _
  | _ => cases hdefault

/-! ## Declarations of a written type -/

/-- The written type of a declaration that is no constant, after the notice that it is public but not
at the root. -/
def declaredType (written : TypeExpr) (isPub : Bool) (span : Span) : Check Ty := do
  if isPub then
    if !(← scopes).isRoot then report .publicDeclarationInLocalScope span
  resolveType written

/-- Bind a name to a type, when what is given for it has another type. -/
def bindName (ty given : Ty) (isPub : Bool) (name : Ident) : Check Unit := do
  if !given.agrees ty then report (.explicitTypeMismatch name.name ty given) name.span
  declare
    { name := name.name
      value := ty.toValue.forgetLiteral
      span := name.span
      isPub := isPub } "variable"

/-- Bind names to a type, when what is given for each of them has another type. -/
def bindTyped (ty given : Ty) (isPub : Bool) (names : List Ident) : Check Unit :=
  names.forM (bindName ty given isPub)

/-- Names whose values have one type are bound to the written type. -/
theorem declareNames_eq_bindTyped (ty given : Ty) (isPub : Bool) (span : Span)
    (all names : List Ident) (values : List Value) (literals : List (Option Literal))
    (hlength : values.length = names.length) (hgiven : ∀ v ∈ values, v.ty = given) :
    declareNames ⟨all, some ty, isPub, false, span⟩ names values literals =
      bindTyped ty given isPub names := by
  induction names generalizing values literals with
  | nil => rfl
  | cons name names ih =>
    cases values with
    | nil => cases hlength
    | cons v values =>
      have hrest := ih values literals.tail (by simpa using hlength) fun w hw =>
        hgiven w (by simp [hw])
      obtain rfl := hgiven v (by simp)
      change (declaredValue name (some ty) v >>= fun value => declare _ "variable" >>= fun _ =>
        declareNames _ names values literals.tail) =
          (bindName ty v.ty isPub name >>= fun _ => bindTyped ty v.ty isPub names)
      rw [hrest]
      cases hagrees : v.ty.agrees ty <;>
        simp [declaredValue, declaredVariable, bindName, hagrees]

/-- Without a value a type with a default is accepted. -/
theorem typedDefaults_eq (h : ty.HasDefault) (names : List Ident) :
    typedDefaults ty names =
      pure (names.filterMap (ty.defaultLiteral? ·.span), names.map fun _ => ty.toValue) := by
  induction names with
  | nil => rfl
  | cons name rest ih =>
    obtain ⟨e, he⟩ := h.exists_literal name.span
    simp [typedDefaults, ih, he]

/-- Nothing is missing where a plain value is needed. -/
theorem expectSingle_of_isPlain {v : Value} (h : v.isPlain = true) (span : Span) :
    expectSingle v span = pure v := by
  cases v with
  | tuple values => cases h
  | _ => rfl

/-- The default literals as the values of a declaration, one for each name. -/
theorem values_defaultLiterals (hown : s.own? c = some env) (h : ty.HasDefault)
    (names : List Ident) :
    ∃ given, values (names.filterMap (ty.defaultLiteral? ·.span))
        (List.replicate names.length ty) c s =
          .ok ((names.filterMap (ty.defaultLiteral? ·.span), given), s) ∧
      given.map Prod.fst = names.map fun _ => ty.defaultValue := by
  induction names with
  | nil => exact ⟨[], rfl, rfl⟩
  | cons name rest ih =>
    obtain ⟨e, he⟩ := h.exists_literal name.span
    obtain ⟨given, hrest, hgiven⟩ := ih
    have hexpr : expr e (some ty) c s = .ok ((e, ty.defaultValue), s) :=
      expr_defaultLiteral? hown he
    have hplain := h.isPlain_defaultValue
    refine ⟨(ty.defaultValue, e.span) :: given, ?_, by simp [hgiven]⟩
    rw [List.filterMap_cons_some (f := fun name : Ident => ty.defaultLiteral? name.span) he,
      List.length_cons, List.replicate_succ, values]
    refine (bind_apply_ok hexpr).trans ?_
    simp only [Value.toList_of_isPlain hplain, expectSingle_of_isPlain hplain, pure_bind, ite_self]
    exact bind_apply_ok hrest

/-- As many values as there are names are neither too few nor too many. -/
theorem checkValueCount_of_length_eq {expected : Nat} {values : List (Value × Span)}
    (h : values.length = expected) (span : Span) (context : String) :
    checkValueCount expected values span context = pure true := by
  subst h
  have hnone : surplusSpan? values.length (values.map Prod.snd) = none := by
    simp [surplusSpan?]
  simp [checkValueCount, hnone]

/-! ## A declaration without a value, and one with the default literals -/

section Statements

variable {written : TypeExpr} {isPub : Bool} {span : Span}

/-- The written type comes first, and then the values. -/
theorem stmt_variable (names : List Ident) (written : TypeExpr) (exprs : List Expr) (isPub : Bool)
    (span : Span) :
    stmt (.variable ⟨names, some written, exprs, isPub, false, span⟩) = (do
      let ty ← declaredType written isPub span
      let d : Declaration := ⟨names, some ty, isPub, false, span⟩
      let (exprs, given) ←
        if exprs.isEmpty then defaultValues d
        else do
          let (exprs, given) ← values exprs (List.replicate exprs.length ty)
          let _ ← checkValueCount names.length given span "declaration"
          pure (exprs, given.map Prod.fst)
      declareNames d names given (inlinedLiterals names exprs)
      return .variable ⟨names, some written, exprs, isPub, false, span⟩) := by
  unfold stmt declaredType
  cases isPub with
  | false => simp [resolveType?]
  | true =>
    simp only [if_true, bind_assoc]
    refine bind_congr fun stack => ?_
    cases stack.isRoot <;> simp [resolveType?]

variable (hwritten : declaredType written isPub span c s = .ok (ty, t)) (names : List Ident)
include hwritten

/-- A declaration without a value binds its names to the written type, and gets the default
literals. -/
theorem stmt_unvalued (h : ty.HasDefault) :
    stmt (.variable ⟨names, some written, [], isPub, false, span⟩) c s = (do
      bindTyped ty ty isPub names
      return Stmt.variable ⟨names, some written, names.filterMap (ty.defaultLiteral? ·.span), isPub,
        false, span⟩ : Check Stmt) c t := by
  have hdefaults : defaultValues ⟨names, some ty, isPub, false, span⟩ =
      pure (names.filterMap (ty.defaultLiteral? ·.span), names.map fun _ => ty.toValue) :=
    typedDefaults_eq h names
  have hgiven : ∀ v ∈ names.map fun _ => ty.toValue, v.ty = ty := by simp [h.ty_toValue]
  rw [stmt_variable, bind_apply_ok hwritten]
  simp only [List.isEmpty_nil, if_true, hdefaults, pure_bind,
    declareNames_eq_bindTyped ty ty isPub span names names _ _ (List.length_map ..) hgiven]

/-- A declaration with the default literals compares the type of each with the written one. -/
theorem stmt_defaults (hown : t.own? c = some env) (h : ty.HasDefault) :
    stmt (.variable ⟨names, some written, names.filterMap (ty.defaultLiteral? ·.span), isPub, false,
      span⟩) c s = (do
      bindTyped ty ty.defaultValue.ty isPub names
      return Stmt.variable ⟨names, some written, names.filterMap (ty.defaultLiteral? ·.span), isPub,
        false, span⟩ : Check Stmt) c t := by
  cases names with
  | nil => exact stmt_unvalued hwritten [] h
  | cons name rest =>
    have hlength : ((name :: rest).filterMap (ty.defaultLiteral? ·.span)).length =
        (name :: rest).length := by
      refine List.filterMap_length_eq_length.2 fun name _ => ?_
      obtain ⟨e, he⟩ := h.exists_literal name.span
      simp [he]
    obtain ⟨given, hvalues, hgiven⟩ := values_defaultLiterals hown h (name :: rest)
    have hcount : given.length = (name :: rest).length := by
      simpa using congrArg List.length hgiven
    have hnonempty : ((name :: rest).filterMap (ty.defaultLiteral? ·.span)).isEmpty = false := by
      rw [List.isEmpty_eq_false_iff, ← List.length_pos_iff, hlength]
      exact Nat.succ_pos _
    have htypes : ∀ v ∈ given.map Prod.fst, v.ty = ty.defaultValue.ty := by simp [hgiven]
    rw [stmt_variable, bind_apply_ok hwritten]
    simp only [hnonempty, Bool.false_eq_true, if_false, hlength]
    rw [bind_apply_ok hvalues]
    simp only [checkValueCount_of_length_eq hcount, pure_bind,
      declareNames_eq_bindTyped ty _ isPub span _ _ _ _ ((List.length_map ..).trans hcount) htypes]

end Statements

/-- What `bindTyped` is told does not matter if it agrees. -/
theorem bindTyped_of_agrees {given : Ty} (h : given.agrees ty = true) (isPub : Bool)
    (names : List Ident) : bindTyped ty given isPub names = bindTyped ty ty isPub names := by
  have hname : bindName ty given isPub = bindName ty ty isPub := by
    funext name
    simp [bindName, h, ty.agrees_self]
  rw [bindTyped, bindTyped, hname]

/-! ## Where the two differ -/

theorem count_push (d : Diagnostics) (a : Alert) (code : AlertCode) :
    (d.push a).count code = d.count code + if a.code = code then 1 else 0 := by
  simp [Diagnostics.count, Diagnostics.codes, Diagnostics.push, List.count_singleton]

/-- Binding a name may report that it is taken, but never that a type does not agree. -/
theorem runs_declare_mismatches (hown : s.own? c = some env) (v : Variable) (what : String) :
    Runs (declare v what) c s fun _ t => (∃ env', t.own? c = some env') ∧
      t.alerts.count .explicitTypeMismatch = s.alerts.count .explicitTypeMismatch := by
  rw [Runs, declare, bind_apply_ok (scopes_eq hown)]
  cases env.scopes.declare v with
  | ok below => exact ⟨_, _, modifyScopes_eq hown _, ⟨_, by rw [own?_modifyOwn, hown]; rfl⟩, rfl⟩
  | error e => cases e <;> exact ⟨_, _, rfl, ⟨env, hown⟩, count_push _ _ _⟩

theorem runs_bindName_mismatches (hown : s.own? c = some env) (ty given : Ty) (isPub : Bool)
    (name : Ident) :
    Runs (bindName ty given isPub name) c s fun _ t => (∃ env', t.own? c = some env') ∧
      t.alerts.count .explicitTypeMismatch = s.alerts.count .explicitTypeMismatch +
        if given.agrees ty then 0 else 1 := by
  unfold bindName
  cases hagrees : given.agrees ty with
  | true => simpa using runs_declare_mismatches hown _ _
  | false =>
    refine (runs_modify _).bind fun _ t ht => ?_
    have hown' : t.own? c = some env := ht ▸ hown
    refine (runs_declare_mismatches hown' _ _).mono fun _ u ⟨hkept, hcount⟩ => ⟨hkept, ?_⟩
    rw [hcount, ht]
    exact count_push _ _ _

/-- A type that does not agree is reported once for each name. -/
theorem runs_bindTyped_mismatches (hown : s.own? c = some env) (ty given : Ty) (isPub : Bool)
    (names : List Ident) :
    Runs (bindTyped ty given isPub names) c s fun _ t =>
      t.alerts.count .explicitTypeMismatch = s.alerts.count .explicitTypeMismatch +
        if given.agrees ty then 0 else names.length := by
  induction names generalizing s env with
  | nil => exact .pure (by simp)
  | cons name rest ih =>
    refine (runs_bindName_mismatches hown ty given isPub name).bind
      fun _ t ⟨⟨env', ht⟩, hcount⟩ => (ih ht).mono fun _ u hrest => ?_
    rw [hrest, hcount, List.length_cons]
    split <;> omega

/-- In a scope of the own environment the default literal of a type is checked without an alert, and
its value has the type exactly if that is no type of a function with parameters or returns. A
declaration that is no constant binds its names to the written type without comparing it with
anything if it has no value, and compares it with the type of the literals if they are written. So
the two come to the same for all the other types. -/
theorem default_literals_agree {ty : Ty} {span : Span} {e : Expr}
    (hdefault : ty.defaultLiteral? span = some e) :
    (∀ c s env, s.own? c = some env →
      expr e (some ty) c s = .ok ((e, ty.defaultValue), s)) ∧
    (ty.defaultValue.ty.agrees ty = true ↔ ty.hasParamsOrReturns = false) ∧
    ∀ c s t env names written isPub span,
      declaredType written isPub span c s = .ok (ty, t) → t.own? c = some env →
      let unvalued := Stmt.variable ⟨names, some written, [], isPub, false, span⟩
      let valued := Stmt.variable
        ⟨names, some written, names.filterMap (ty.defaultLiteral? ·.span), isPub, false, span⟩
      stmt unvalued c s = (do
        bindTyped ty ty isPub names
        return valued : Check Stmt) c t ∧
      stmt valued c s = (do
        bindTyped ty ty.defaultValue.ty isPub names
        return valued : Check Stmt) c t ∧
      (stmt unvalued c s = stmt valued c s ↔ names = [] ∨ ty.hasParamsOrReturns = false) := by
  have h := Ty.hasDefault_of_defaultLiteral? hdefault
  have hagrees : ty.defaultValue.ty.agrees ty = true ↔ ty.hasParamsOrReturns = false := by
    simp [h.agrees_defaultValue]
  refine ⟨fun c s env hown => expr_defaultLiteral? hown hdefault, hagrees,
    fun c s t env names written isPub span hwritten hown => ?_⟩
  have hunvalued := stmt_unvalued hwritten names h
  have hvalued := stmt_defaults hwritten names hown h
  refine ⟨hunvalued, hvalued, fun hsame => ?_, ?_⟩
  · -- The two runs report as many types that do not agree.
    obtain ⟨_, u, hrun, hcount⟩ := runs_bindTyped_mismatches hown ty ty isPub names
    obtain ⟨_, u', hrun', hcount'⟩ :=
      runs_bindTyped_mismatches hown ty ty.defaultValue.ty isPub names
    rw [hunvalued, hvalued, bind_apply_ok hrun, bind_apply_ok hrun'] at hsame
    obtain rfl : u = u' := (Prod.mk.inj (Except.ok.inj hsame)).2
    rw [hcount, ty.agrees_self, if_pos rfl] at hcount'
    by_cases hno : ty.hasParamsOrReturns = false
    · exact .inr hno
    · rw [if_neg (hagrees.not.2 hno)] at hcount'
      exact .inl (List.length_eq_zero_iff.1 (by omega))
  · rintro (rfl | hno)
    · rw [hunvalued, hvalued]
      rfl
    · rw [hunvalued, hvalued, bindTyped_of_agrees (hagrees.2 hno)]

/-- `list<number>` -/
def listOfNumber : TypeExpr :=
  ⟨none, ⟨"list", .synthetic⟩, [⟨none, ⟨"number", .synthetic⟩, [], [], [], false, .synthetic⟩], [], [],
    false, .synthetic⟩

/-- The check of an empty file. -/
def emptyFile : State := { session := ((Session.new {}).addProgram "main.hyb" []).2 }

/-- In an empty file a variable of the type `list<number>` is declared in the same way with an empty
list and without a value. -/
theorem default_literals_agree_list :
    stmt (.variable ⟨[⟨"l", .synthetic⟩], some listOfNumber, [], false, false, .synthetic⟩)
      ⟨.user 0, Session.walk 0⟩ emptyFile =
    stmt (.variable ⟨[⟨"l", .synthetic⟩], some listOfNumber, [.list [] .synthetic], false, false,
      .synthetic⟩) ⟨.user 0, Session.walk 0⟩ emptyFile := by
  have hdefault : (Ty.list .number).defaultLiteral? .synthetic = some (.list [] .synthetic) := rfl
  obtain ⟨-, -, hdeclared⟩ := default_literals_agree hdefault
  obtain ⟨-, -, hsame⟩ := hdeclared ⟨.user 0, Session.walk 0⟩ emptyFile emptyFile _
    [⟨"l", .synthetic⟩] listOfNumber false .synthetic rfl rfl
  exact hsame.2 (.inr rfl)

end Check

/-! ## A default of another type -/

/-- A variable of the type `fn(number) -> number` with the given values. -/
def declaringFunction (values : List Expr) : Program :=
  let number : TypeExpr := ⟨none, ⟨"number", .synthetic⟩, [], [], [], false, .synthetic⟩
  [.level "Main",
    .variable ⟨[⟨"f", .synthetic⟩],
      some ⟨none, ⟨"fn", .synthetic⟩, [], [number], [number], false, .synthetic⟩, values, false, false,
      .synthetic⟩]

/-- Without a value the declaration is accepted and gets its default literal. The declaration with
that literal is refused, because the types do not agree. -/
theorem analyze_accepts_default :
    ∃ e, (Ty.fn [.number] [.number]).defaultLiteral? .synthetic = some e ∧
      analyzedCodes [("main.hyb", declaringFunction [])] = some [[]] ∧
      analyzedCodes [("main.hyb", declaringFunction [e])] = some [[.explicitTypeMismatch]] := by
  refine ⟨_, rfl, ?_, ?_⟩
  · decide +kernel
  · decide +kernel

end HybroidSema
