import HybroidSema.Proofs.ResolvedRuns

/-!
# Where method calls come from

A method call in a resolved tree stands in the tree that was walked, or takes the place of a call
that the walk came to. That is read off what the nodes become: a walk keeps a method call but for its
receiver, which is resolved, and the only node that becomes a method call is a call.

* `Expr.methodCalls`, `Stmt.methodCalls` and the others: the method calls of a tree.
* `Tour.Makes`: a walk comes to a call that becomes the method call.
* `Tour.Traces`: where method calls come from, for what a node becomes.
* `method_calls_call_methods_or_marked_fields`: every new method call of a build.
* `analyze_calls_undeclared_method`: a call of a field that names a method that its owner lacks.
* `analyze_changes_resolved`: such a call, walked again as it is resolved, is resolved differently.
-/

namespace HybroidSema

/-! ## Method calls of a tree -/

/-- The same method of the same owner is called at the same place. The receivers may differ: one
takes the place of the other when it is resolved. -/
def MethodCall.Same (a b : MethodCall) : Prop :=
  a.owner = b.owner ∧ a.kind = b.kind ∧ a.method = b.method ∧ a.span = b.span

mutual
/-- The method calls of an expression. -/
def Expr.methodCalls (e : Expr) : List MethodCall :=
  match e with
  | .literal _ | .ident _ | .builtin _ | .envAccess _ _ _ | .self _ _ | .error _ => []
  | .unary _ operand _ => operand.methodCalls
  | .binary left _ right _ => left.methodCalls ++ right.methodCalls
  | .group inner _ => inner.methodCalls
  | .list elems _ => Expr.allMethodCalls elems
  | .map entries _ => MapEntry.allMethodCalls entries
  | .call caller _ args _ _ => caller.methodCalls ++ Expr.allMethodCalls args
  | .methodCall receiver owner kind method _ args _ span =>
    ⟨receiver, owner, kind, method, span⟩ :: (receiver.methodCalls ++ Expr.allMethodCalls args)
  | .field target _ _ _ => target.methodCalls
  | .member target index _ => target.methodCalls ++ index.methodCalls
  | .new _ _ args _ => Expr.allMethodCalls args
  | .spawn _ _ args _ => Expr.allMethodCalls args
  | .function _ _ body _ => Stmt.allMethodCalls body
  | .matching subject arms _ _ => subject.methodCalls ++ MatchArm.allMethodCalls arms
  | .entityTest value _ _ _ _ _ => value.methodCalls
  termination_by structural e

/-- The method calls of expressions. -/
def Expr.allMethodCalls (es : List Expr) : List MethodCall :=
  match es with
  | [] => []
  | e :: rest => e.methodCalls ++ Expr.allMethodCalls rest
  termination_by structural es

/-- The method calls of entries. -/
def MapEntry.allMethodCalls (es : List MapEntry) : List MethodCall :=
  match es with
  | [] => []
  | ⟨_, e⟩ :: rest => e.methodCalls ++ MapEntry.allMethodCalls rest
  termination_by structural es

/-- The method calls of arms. -/
def MatchArm.allMethodCalls (arms : List MatchArm) : List MethodCall :=
  match arms with
  | [] => []
  | ⟨patterns, _, body, _⟩ :: rest =>
    Expr.allMethodCalls patterns ++ Stmt.allMethodCalls body ++ MatchArm.allMethodCalls rest
  termination_by structural arms

/-- The method calls of an optional expression. -/
def Expr.optionMethodCalls (e : Option Expr) : List MethodCall :=
  match e with
  | none => []
  | some e => e.methodCalls
  termination_by structural e

/-- The method calls of initializers. -/
def VariableDecl.allMethodCalls (decls : List VariableDecl) : List MethodCall :=
  match decls with
  | [] => []
  | ⟨_, _, values, _, _, _⟩ :: rest =>
    Expr.allMethodCalls values ++ VariableDecl.allMethodCalls rest
  termination_by structural decls

/-- The method calls of the bodies of functions. -/
def FunctionDecl.allMethodCalls (decls : List FunctionDecl) : List MethodCall :=
  match decls with
  | [] => []
  | ⟨_, _, _, _, body, _, _⟩ :: rest =>
    Stmt.allMethodCalls body ++ FunctionDecl.allMethodCalls rest
  termination_by structural decls

/-- The method calls of the body of a constructor. -/
def ConstructorDecl.optionMethodCalls (decl : Option ConstructorDecl) : List MethodCall :=
  match decl with
  | none => []
  | some ⟨_, _, body, _⟩ => Stmt.allMethodCalls body
  termination_by structural decl

/-- The method calls of the bodies of lifecycle functions. -/
def LifecycleDecl.allMethodCalls (decls : List LifecycleDecl) : List MethodCall :=
  match decls with
  | [] => []
  | ⟨_, _, _, _, body, _⟩ :: rest => Stmt.allMethodCalls body ++ LifecycleDecl.allMethodCalls rest
  termination_by structural decls

/-- The method calls of branches. -/
def ElseIf.allMethodCalls (branches : List ElseIf) : List MethodCall :=
  match branches with
  | [] => []
  | ⟨condition, body, _⟩ :: rest =>
    condition.methodCalls ++ Stmt.allMethodCalls body ++ ElseIf.allMethodCalls rest
  termination_by structural branches

/-- The method calls of an optional body. -/
def Stmt.optionMethodCalls (body : Option (List Stmt)) : List MethodCall :=
  match body with
  | none => []
  | some body => Stmt.allMethodCalls body
  termination_by structural body

/-- The method calls of statements. -/
def Stmt.allMethodCalls (stmts : List Stmt) : List MethodCall :=
  match stmts with
  | [] => []
  | s :: rest => s.methodCalls ++ Stmt.allMethodCalls rest
  termination_by structural stmts

/-- The method calls of a statement. -/
def Stmt.methodCalls (s : Stmt) : List MethodCall :=
  match s with
  | .env _ | .enumDecl _ | .aliasDecl _ | .breaking _ | .continuing _ | .use _ | .error _ => []
  | .variable ⟨_, _, values, _, _, _⟩ => Expr.allMethodCalls values
  | .function ⟨_, _, _, _, body, _, _⟩ => Stmt.allMethodCalls body
  | .classDecl ⟨_, _, fields, methods, constructor, _⟩ =>
    VariableDecl.allMethodCalls fields ++ FunctionDecl.allMethodCalls methods ++
      ConstructorDecl.optionMethodCalls constructor
  | .entityDecl ⟨_, _, fields, methods, functions, _⟩ =>
    VariableDecl.allMethodCalls fields ++ FunctionDecl.allMethodCalls methods ++
      LifecycleDecl.allMethodCalls functions
  | .assign targets _ values _ => Expr.allMethodCalls targets ++ Expr.allMethodCalls values
  | .ifChain condition body elseifs otherwise _ =>
    condition.methodCalls ++ Stmt.allMethodCalls body ++ ElseIf.allMethodCalls elseifs ++
      Stmt.optionMethodCalls otherwise
  | .repeatLoop iterator start skip _ body _ =>
    iterator.methodCalls ++ Expr.optionMethodCalls start ++ Expr.optionMethodCalls skip ++
      Stmt.allMethodCalls body
  | .whileLoop condition body _ => condition.methodCalls ++ Stmt.allMethodCalls body
  | .forLoop _ _ iterator body _ => iterator.methodCalls ++ Stmt.allMethodCalls body
  | .tick _ body _ => Stmt.allMethodCalls body
  | .matching subject arms _ => subject.methodCalls ++ MatchArm.allMethodCalls arms
  | .returning values _ => Expr.allMethodCalls values
  | .yielding values _ => Expr.allMethodCalls values
  | .destroy target _ args _ => target.methodCalls ++ Expr.allMethodCalls args
  | .expr e => e.methodCalls
  termination_by structural s
end

open Check

/-! ## Origins -/

theorem Check.StandsFor.methodCalls_eq {c : Context} {s : State} {id : Ident} {e : Expr}
    {value : Value} (h : StandsFor c s id e value) : e.methodCalls = [] := by
  cases h <;> rfl

theorem Ty.methodCalls_unitLiteral (ty : Ty) (span : Span) :
    (ty.unitLiteral span).methodCalls = [] := by
  unfold unitLiteral
  split <;> rfl

theorem Ty.methodCalls_defaultLiteral? {ty : Ty} {span : Span} {e : Expr}
    (h : ty.defaultLiteral? span = some e) : e.methodCalls = [] := by
  unfold defaultLiteral? at h
  split at h <;> cases h <;> rfl

/-- What initializes a declaration of a type has no method calls. -/
theorem Ty.allMethodCalls_defaults (ty : Ty) (names : List Ident) :
    Expr.allMethodCalls (names.filterMap (ty.defaultLiteral? ·.span)) = [] := by
  induction names with
  | nil => rfl
  | cons name rest ih =>
    cases hdefault : ty.defaultLiteral? name.span with
    | none => simpa [hdefault] using ih
    | some e => simp [hdefault, Expr.allMethodCalls, ih, methodCalls_defaultLiteral? hdefault]

namespace Tour

/-- The walk comes to a call that becomes the method call. -/
def Makes (w : Tour) (m : MethodCall) : Prop :=
  ∃ caller generics args returnAmount hint s,
    w.reached (.expr (.call caller generics args returnAmount m.span) hint) s ∧
      Rewrites w.context s caller m

/-- Every method call was written, apart from its receiver, or is made in the walk. -/
def Traces (w : Tour) (written calls : List MethodCall) : Prop :=
  ∀ m ∈ calls, (∃ m' ∈ written, m'.Same m) ∨ w.Makes m

variable {w : Tour} {written written' calls calls' : List MethodCall} {m m' : MethodCall}

/-- What is kept as it was written. -/
theorem Traces.refl (calls : List MethodCall) : w.Traces calls calls :=
  fun m hm => .inl ⟨m, hm, rfl, rfl, rfl, rfl⟩

theorem Traces.of_eq_nil (h : calls = []) : w.Traces written calls := by
  rw [h]
  exact nofun

theorem Traces.append (h : w.Traces written calls) (h' : w.Traces written' calls') :
    w.Traces (written ++ written') (calls ++ calls') := by
  intro m hm
  rcases List.mem_append.1 hm with hm | hm
  · exact (h m hm).imp_left fun ⟨m', hm', hsame⟩ => ⟨m', List.mem_append_left _ hm', hsame⟩
  · exact (h' m hm).imp_left fun ⟨m', hm', hsame⟩ => ⟨m', List.mem_append_right _ hm', hsame⟩

theorem Traces.made (hm : w.Makes m) (h : w.Traces written calls) :
    w.Traces written (m :: calls) :=
  List.forall_mem_cons.2 ⟨.inr hm, h⟩

theorem Traces.kept (hsame : m'.Same m) (h : w.Traces written calls) :
    w.Traces (m' :: written) (m :: calls) := by
  refine List.forall_mem_cons.2 ⟨.inl ⟨m', List.mem_cons_self .., hsame⟩, fun m hm => ?_⟩
  exact (h m hm).imp_left fun ⟨m', hm', hsame⟩ => ⟨m', List.mem_cons_of_mem _ hm', hsame⟩

mutual
theorem traces_expr (e : Expr) {e' : Expr} (h : e.Becomes w e') :
    w.Traces e.methodCalls e'.methodCalls :=
  match e, h with
  | .literal _, .literal _ | .builtin _, .builtin _ | .envAccess _ _ _, .envAccess _ _ _
  | .self _ _, .self _ | .error _, .error _ => .refl _
  | .ident _, .ident _ hname => .of_eq_nil hname.methodCalls_eq
  | .envAccess _ _ _, .inlined _ _ => .refl _
  | .unary _ operand _, .unary h => (traces_expr operand h :)
  | .binary left _ right _, .binary hleft hright =>
    (traces_expr left hleft).append (traces_expr right hright)
  | .group inner _, .group h => (traces_expr inner h :)
  | .list elems _, .list h => traces_exprs elems h
  | .map entries _, .map h => traces_entries entries h
  | .call caller _ args _ _, .call hcaller hargs =>
    (traces_expr caller hcaller).append (traces_exprs args hargs)
  | .call caller _ args _ _, .called hcaller hargs h howner =>
    .made ⟨_, _, _, _, _, _, h, howner⟩
      ((traces_expr caller hcaller).append (traces_exprs args hargs))
  | .methodCall receiver _ _ _ _ args _ _, .methodCall hreceiver hargs =>
    .kept ⟨rfl, rfl, rfl, rfl⟩ ((traces_expr receiver hreceiver).append (traces_exprs args hargs))
  | .methodCall receiver _ _ _ _ _ _ _, .ownerless hreceiver =>
    .kept ⟨rfl, rfl, rfl, rfl⟩ ((traces_expr receiver hreceiver).append (.refl _))
  | .field target _ _ _, .field h _ => (traces_expr target h :)
  | .field _ _ _ _, .number _ _ => .of_eq_nil rfl
  | .member target index _, .member htarget hindex =>
    (traces_expr target htarget).append (traces_expr index hindex)
  | .new _ _ args _, .new h => traces_exprs args h
  | .spawn _ _ args _, .spawn h => traces_exprs args h
  | .function _ _ body _, .function h => traces_body body h
  | .matching subject arms _ _, .matching hsubject harms =>
    (traces_expr subject hsubject).append (traces_arms arms harms)
  | .entityTest value _ _ _ _ _, .entityTest h _ => (traces_expr value h :)
  termination_by structural e

theorem traces_exprs (es : List Expr) {es' : List Expr} (h : List.Forall₂ (Expr.Becomes w) es es') :
    w.Traces (Expr.allMethodCalls es) (Expr.allMethodCalls es') :=
  match es, h with
  | [], .nil => .refl _
  | e :: rest, .cons h hrest => (traces_expr e h).append (traces_exprs rest hrest)
  termination_by structural es

theorem traces_entries (entries : List MapEntry) {entries' : List MapEntry}
    (h : List.Forall₂ (MapEntry.Becomes w) entries entries') :
    w.Traces (MapEntry.allMethodCalls entries) (MapEntry.allMethodCalls entries') :=
  match entries, h with
  | [], .nil => .refl _
  | ⟨_, e⟩ :: rest, .cons (.entry h) hrest => (traces_expr e h).append (traces_entries rest hrest)
  termination_by structural entries

theorem traces_arms (arms : List MatchArm) {arms' : List MatchArm}
    (h : List.Forall₂ (MatchArm.Becomes w) arms arms') :
    w.Traces (MatchArm.allMethodCalls arms) (MatchArm.allMethodCalls arms') :=
  match arms, h with
  | [], .nil => .refl _
  | ⟨pats, _, body, _⟩ :: rest, .cons (.case hpats hbody) hrest =>
    ((traces_exprs pats hpats).append (traces_body body hbody)).append (traces_arms rest hrest)
  | ⟨_, _, body, _⟩ :: rest, .cons (.default hbody) hrest =>
    (Traces.append (.refl _) (traces_body body hbody)).append (traces_arms rest hrest)
  termination_by structural arms

theorem traces_part (part : Option Expr) {span : Span} {e' : Expr}
    (h : Expr.PartBecomes w span part e') :
    w.Traces (Expr.optionMethodCalls part) (Expr.optionMethodCalls (some e')) :=
  match part, h with
  | some e, .written h => traces_expr e h
  | none, .filled ty span => .of_eq_nil (ty.methodCalls_unitLiteral span)
  termination_by structural part

theorem traces_fields (decls : List VariableDecl) {decls' : List VariableDecl}
    (h : List.Forall₂ (VariableDecl.Becomes w) decls decls') :
    w.Traces (VariableDecl.allMethodCalls decls) (VariableDecl.allMethodCalls decls') :=
  match decls, h with
  | [], .nil => .refl _
  | ⟨_, _, values, _, _, _⟩ :: rest, .cons (.values h) hrest =>
    (traces_exprs values h).append (traces_fields rest hrest)
  termination_by structural decls

theorem traces_functions (decls : List FunctionDecl) {decls' : List FunctionDecl}
    (h : List.Forall₂ (FunctionDecl.Becomes w) decls decls') :
    w.Traces (FunctionDecl.allMethodCalls decls) (FunctionDecl.allMethodCalls decls') :=
  match decls, h with
  | [], .nil => .refl _
  | ⟨_, _, _, _, body, _, _⟩ :: rest, .cons (.body h) hrest =>
    (traces_body body h).append (traces_functions rest hrest)
  termination_by structural decls

theorem traces_constructor (decl : Option ConstructorDecl) {decl' : Option ConstructorDecl}
    (h : Option.Rel (ConstructorDecl.Becomes w) decl decl') :
    w.Traces (ConstructorDecl.optionMethodCalls decl) (ConstructorDecl.optionMethodCalls decl') :=
  match decl, h with
  | none, .none => .refl _
  | some ⟨_, _, body, _⟩, .some (.body h) => traces_body body h
  | some ⟨_, _, _, _⟩, .some (.kept _) => .refl _
  termination_by structural decl

theorem traces_lifecycles (decls : List LifecycleDecl) {decls' : List LifecycleDecl}
    (h : List.Forall₂ (LifecycleDecl.Becomes w) decls decls') :
    w.Traces (LifecycleDecl.allMethodCalls decls) (LifecycleDecl.allMethodCalls decls') :=
  match decls, h with
  | [], .nil => .refl _
  | ⟨_, _, _, _, body, _⟩ :: rest, .cons (.body h) hrest =>
    (traces_body body h).append (traces_lifecycles rest hrest)
  termination_by structural decls

theorem traces_elseIfs (branches : List ElseIf) {branches' : List ElseIf}
    (h : List.Forall₂ (ElseIf.Becomes w) branches branches') :
    w.Traces (ElseIf.allMethodCalls branches) (ElseIf.allMethodCalls branches') :=
  match branches, h with
  | [], .nil => .refl _
  | ⟨condition, body, _⟩ :: rest, .cons (.branch hcondition hbody) hrest =>
    ((traces_expr condition hcondition).append (traces_body body hbody)).append
      (traces_elseIfs rest hrest)
  termination_by structural branches

theorem traces_otherwise (otherwise : Option (List Stmt)) {otherwise' : Option (List Stmt)}
    (h : Option.Rel (Stmt.BodyBecomes w) otherwise otherwise') :
    w.Traces (Stmt.optionMethodCalls otherwise) (Stmt.optionMethodCalls otherwise') :=
  match otherwise, h with
  | none, .none => .refl _
  | some body, .some h => traces_body body h
  termination_by structural otherwise

theorem traces_body (stmts : List Stmt) {stmts' : List Stmt} (h : Stmt.BodyBecomes w stmts stmts') :
    w.Traces (Stmt.allMethodCalls stmts) (Stmt.allMethodCalls stmts') :=
  match stmts, h with
  | [], .nil => .refl _
  | first :: rest, .cons hfirst hrest => (traces_stmt first hfirst).append (traces_body rest hrest)
  | first :: _, .cut hfirst _ _ => (traces_stmt first hfirst).append (.of_eq_nil rfl)
  termination_by structural stmts

theorem traces_stmt (st : Stmt) {st' : Stmt} (h : st.Becomes w st') :
    w.Traces st.methodCalls st'.methodCalls :=
  match st, h with
  | .env _, .env _ | .enumDecl _, .enumDecl _ | .aliasDecl _, .aliasDecl _
  | .breaking _, .breaking _ | .continuing _, .continuing _ | .use _, .use _ | .error _, .error _
  | .classDecl _, .classKept _ | .entityDecl _, .entityKept _ => .refl _
  | .variable ⟨_, _, values, _, _, _⟩, .declared (.values h) => traces_exprs values h
  | .variable ⟨names, _, _, _, _, _⟩, .defaults _ _ _ =>
    .of_eq_nil (Ty.allMethodCalls_defaults _ names)
  | .function ⟨_, _, _, _, body, _, _⟩, .function (.body h) => traces_body body h
  | .classDecl ⟨_, _, fields, methods, constructor, _⟩, .classDecl hfields hmethods hconstructor =>
    ((traces_fields fields hfields).append (traces_functions methods hmethods)).append
      (traces_constructor constructor hconstructor)
  | .entityDecl ⟨_, _, fields, methods, functions, _⟩, .entityDecl hfields hmethods hfunctions =>
    ((traces_fields fields hfields).append (traces_functions methods hmethods)).append
      (traces_lifecycles functions hfunctions)
  | .assign targets _ values _, .assign htargets hvalues =>
    (traces_exprs targets htargets).append (traces_exprs values hvalues)
  | .ifChain condition body elseifs otherwise _, .ifChain hcondition hbody helseifs hotherwise =>
    (((traces_expr condition hcondition).append (traces_body body hbody)).append
      (traces_elseIfs elseifs helseifs)).append (traces_otherwise otherwise hotherwise)
  | .repeatLoop iterator start skip _ body _, .repeatLoop hiterator hstart hskip hbody =>
    (((traces_expr iterator hiterator).append (traces_part start hstart)).append
      (traces_part skip hskip)).append (traces_body body hbody)
  | .whileLoop condition body _, .whileLoop hcondition hbody =>
    (traces_expr condition hcondition).append (traces_body body hbody)
  | .forLoop _ _ iterator body _, .forLoop _ hiterator hbody =>
    (traces_expr iterator hiterator).append (traces_body body hbody)
  | .tick _ body _, .tick h => traces_body body h
  | .matching subject arms _, .matching hsubject harms =>
    (traces_expr subject hsubject).append (traces_arms arms harms)
  | .returning values _, .returning h => traces_exprs values h
  | .yielding values _, .yielding h => traces_exprs values h
  | .destroy target _ args _, .destroy htarget hargs =>
    (traces_expr target htarget).append (traces_exprs args hargs)
  | .expr e, .expr h => traces_expr e h
  termination_by structural st
end

end Tour

/-! ## Builds -/

/-- Where a new method call comes from: the walk of a program came to a call, and its caller was a
method of the owner or a field with a function that was reached as one before. -/
def MethodCall.Explained (c : Context) (s : State) (p : Program) (m : MethodCall) : Prop :=
  ∃ regions caller generics args returnAmount hint t,
    Visits c (programTask p) s regions (.expr (.call caller generics args returnAmount m.span) hint)
      t ∧ (CallsMethod c t caller m ∨ CallsMarkedField c t caller m)

/-- In every build, every method call of a resolved program was in the program, apart from its
receiver, or takes the place of a call that the walk came to. Then it names a declared method of its
owner and its receiver is an instance of the owner; the one exception is a call of a field whose
function was reached as a method when the field was given its value. The call of a variable never
becomes a method call. -/
theorem method_calls_call_methods_or_marked_fields {config : Config}
    {files : List (String × Program)} {out : BuildOutput} (hout : analyze config files = .ok out)
    {i : Nat} {path : String} {p : Program} (hfile : files[i]? = some (path, p)) :
    ∃ walked depth s₀ env₀ t, out.programs[i]? = some walked ∧ Walks (.user i) s₀ env₀ ∧
      env₀.scopes.outline = {} ∧
      Check.program p ⟨.user i, Session.walk depth⟩ s₀ = .ok (walked, t) ∧
      ∀ m ∈ Stmt.allMethodCalls walked, (∃ m' ∈ Stmt.allMethodCalls p, m'.Same m) ∨
        m.Explained ⟨.user i, Session.walk depth⟩ s₀ p := by
  obtain ⟨-, -, -, hwalked⟩ := finished_of_analyze hout
  obtain ⟨walked, c, s, t, env, hwalk, -, -, hprogram, -⟩ := hwalked i path p hfile
  obtain ⟨s₀, hl, hcheck⟩ := hwalk.checks
  obtain ⟨depth, hdepth⟩ := hwalk.nested
  obtain rfl : c = ⟨.user i, Session.walk depth⟩ := by
    rw [← hwalk.own, ← hdepth]
  obtain ⟨env₀, hwalks, ho⟩ := hl.walks
  refine ⟨walked, depth, s₀, env₀, t, hprogram, hwalks, ho, hcheck, fun m hm => ?_⟩
  have hbecomes := becomes_program (isComplete_tourOf hl) ⟨[], .here _ _⟩ hcheck
  refine (Tour.traces_body p hbecomes m hm).imp_right ?_
  rintro ⟨caller, generics, args, returnAmount, hint, u, ⟨regions, hvisits⟩, hrewrites⟩
  refine ⟨regions, caller, generics, args, returnAmount, hint, u, hvisits, ?_⟩
  obtain ⟨o, hl', hfollows, helsewhere⟩ := hvisits.follows hl .start (placed_programTask p)
  rw [List.append_nil] at hfollows helsewhere
  obtain ⟨env', hwalks', ho'⟩ := hl'.walks
  exact hrewrites.cases hwalks'.registered ho' hfollows helsewhere

/-- A class with a constructor and the given fields and methods. -/
def simpleClass (name : String) (fields : List VariableDecl) (methods : List FunctionDecl) : Stmt :=
  .classDecl ⟨⟨name, .synthetic⟩, false, fields, methods, some ⟨[], [], [], .synthetic⟩, .synthetic⟩

/-- A variable with a new instance of a class. -/
def newInstance (name cls : String) : Stmt :=
  .variable ⟨[⟨name, .synthetic⟩], none,
    [.new ⟨none, ⟨cls, .synthetic⟩, [], [], [], false, .synthetic⟩ [] [] .synthetic], false, false,
    .synthetic⟩

/-- A member of a variable. -/
def memberOf (name field : String) : Expr :=
  .field (.ident ⟨name, .synthetic⟩) ⟨field, .synthetic⟩ none .synthetic

/-- A class `D` with a method `go`, an instance `d` of it, and what follows. -/
def withMethod (rest : List Stmt) : Program :=
  .level "Main" ::
    simpleClass "D" [] [⟨⟨"go", .synthetic⟩, [], [], [], [], false, .synthetic⟩] ::
    newInstance "d" "D" :: rest

/-- The method `go` is called. -/
def methodProgram : Program := withMethod [.expr (.call (memberOf "d" "go") [] [] 0 .synthetic)]

/-- The call of a method becomes a method call, which comes from a call of the method. -/
theorem method_calls_call_methods_or_marked_fields_go :
    ∃ depth s₀, ∃ m : MethodCall, m.method.name = "go" ∧
      m.Explained ⟨.user 0, Session.walk depth⟩ s₀ methodProgram := by
  have hbuild : ((analyze {} [("main.hyb", methodProgram)]).toOption.bind (·.programs[0]?)).any
      (fun walked => (Stmt.allMethodCalls walked).any (·.method.name == "go")) = true := by
    decide +kernel
  cases hout : analyze {} [("main.hyb", methodProgram)] with
  | error e =>
    rw [hout] at hbuild
    cases hbuild
  | ok out =>
    obtain ⟨walked, depth, s₀, env₀, t, hprogram, -, -, -, hcalls⟩ :=
      method_calls_call_methods_or_marked_fields hout (i := 0) rfl
    rw [hout] at hbuild
    simp only [Except.toOption, Option.bind_some, hprogram, Option.any_some,
      List.any_eq_true] at hbuild
    obtain ⟨m, hm, hname⟩ := hbuild
    rcases hcalls m hm with ⟨m', hwritten, -⟩ | hexplained
    · cases hwritten
    · exact ⟨depth, s₀, m, by simpa using hname, hexplained⟩

/-- A class `C` has a field `f` with the method `go` of `d`, and the field is called. -/
def markedFieldProgram : Program := withMethod
  [simpleClass "C" [⟨[⟨"f", .synthetic⟩], none, [memberOf "d" "go"], false, false, .synthetic⟩] [],
    newInstance "c" "C", .expr (.call (memberOf "c" "f") [] [] 0 .synthetic)]

/-- The call of a field becomes a method call that names a method that its owner lacks, and nothing
is reported. -/
theorem analyze_calls_undeclared_method : Stmt.allMethodCalls markedFieldProgram = [] ∧
    ∃ (out : BuildOutput) (walked : Program) (m : MethodCall) (members : Members),
      analyze {} [("main.hyb", markedFieldProgram)] = .ok out ∧
      out.isSuccess = true ∧ out.programs[0]? = some walked ∧ m ∈ Stmt.allMethodCalls walked ∧
      out.registry.members? m.owner m.kind = some members ∧
      members.hasMethod m.method.name = false := by
  refine ⟨rfl, ?_⟩
  have hbuild : (analyze {} [("main.hyb", markedFieldProgram)]).toOption.any (fun out =>
      out.isSuccess && out.programs[0]?.any fun walked =>
        (Stmt.allMethodCalls walked).any fun m =>
          (out.registry.members? m.owner m.kind).any (!·.hasMethod m.method.name)) = true := by
    decide +kernel
  obtain ⟨out, hout, hcalled⟩ := Check.exists_eq_ok_of_any hbuild
  simp only [Bool.and_eq_true, Option.any_eq_true, List.any_eq_true, Bool.not_eq_true'] at hcalled
  obtain ⟨hsuccess, walked, hwalked, m, hm, members, hmembers, hlacks⟩ := hcalled
  exact ⟨out, walked, m, members, hout, hsuccess, hwalked, hm, hmembers, hlacks⟩

/-! ## Walking such a call again -/

/-- The last statement of a program in a file of its own, as it is resolved. -/
def lastResolved? (p : Program) : Option Stmt :=
  (analyze {} [("main.hyb", p)]).toOption.bind fun out => out.programs[0]?.bind List.getLast?

/-- The number of values of a statement that is a call of a method. -/
def Stmt.methodReturns? : Stmt → Option Nat
  | .expr (.methodCall _ _ _ _ _ _ returnAmount _) => some returnAmount
  | _ => none

/-- A field of class `C` holds the method `go` of class `D`, which has a method with the name of the
field too, of a number. -/
def heldMethodProgram : Program :=
  [.level "Main",
    simpleClass "D" []
      [⟨⟨"go", .synthetic⟩, [], [], [], [], false, .synthetic⟩,
        ⟨⟨"f", .synthetic⟩, [], [], [⟨none, ⟨"number", .synthetic⟩, [], [], [], false, .synthetic⟩],
          [.returning [.literal ⟨.number, "1", .synthetic⟩] .synthetic], false, .synthetic⟩],
    newInstance "d" "D",
    simpleClass "C" [⟨[⟨"f", .synthetic⟩], none, [memberOf "d" "go"], false, false, .synthetic⟩] [],
    newInstance "c" "C"]

/-- A call of the field. -/
def heldMethodCall : Stmt := .expr (.call (memberOf "c" "f") [] [] 0 .synthetic)

/-- The call of a field that holds a method of another class is resolved to a call without a value,
and the resolved call, walked again, to one with a value. -/
theorem analyze_changes_resolved :
    ∃ once twice, lastResolved? (heldMethodProgram ++ [heldMethodCall]) = some once ∧
      lastResolved? (heldMethodProgram ++ [heldMethodCall, once]) = some twice ∧ twice ≠ once := by
  have hruns : (lastResolved? (heldMethodProgram ++ [heldMethodCall])).any (fun once =>
      once.methodReturns? == some 0 &&
        (lastResolved? (heldMethodProgram ++ [heldMethodCall, once])).any
          (·.methodReturns? == some 1)) = true := by
    decide +kernel
  obtain ⟨once, honce, hrest⟩ := (Option.any_eq_true _ _).1 hruns
  obtain ⟨hzero, hrest⟩ := Bool.and_eq_true_iff.1 hrest
  obtain ⟨twice, htwice, hone⟩ := (Option.any_eq_true _ _).1 hrest
  refine ⟨once, twice, honce, htwice, ?_⟩
  rintro rfl
  rw [beq_iff_eq] at hzero hone
  simp [hzero] at hone

end HybroidSema
