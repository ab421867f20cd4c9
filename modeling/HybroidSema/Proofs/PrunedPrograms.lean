import HybroidSema.Proofs.PrunedWalks

/-!
# Programs with different dead statements

With pruning, two programs that come to the same when they are blank where they are dead leave the
same state: the same alerts, the same declarations, and the same error that ends the build.

* `Check.EndsAs`: a check that ends in the state that another one ends in.
* `ends_classBody` and `agrees_entityBody`: what stands in the bodies of classes and entities.
* `ends_rootStmt` and `ends_program`: the statements at the root, one after the other.
* `FinishedWalk.of_blank_eq`: the walk of a program with other dead statements.
* `analyze_ignores_dead_statements`: what is reported with pruning, and what pruning changes.
-/

namespace HybroidSema

namespace Check

variable {α β : Type} {m m' : Check α} {f f' : α → Check β} {c : Context} {s t : State}
  {ok : ScopeStack → Prop} {p : Permissions}

/-! ## Checks that end in the same state -/

/-- Where the second check ends, the first one ends in the same state. A class or entity that is not
registered is not walked, so its result is not the same. -/
def EndsAs (ok : ScopeStack → Prop) (p : Permissions) (m' m : Check α) : Prop :=
  ∀ c s o a t, Live c s o → s.session.config.prune = true → o.current.permits.exits = p → ok o →
    m c s = .ok (a, t) → ∃ a', m' c s = .ok (a', t)

theorem AgreesIn.ends (h : AgreesIn ok p m' m) : EndsAs ok p m' m :=
  fun c s o a _ hl hprune hp hs hrun => ⟨a, (h c s o hl hprune hp hs).trans hrun⟩

theorem EndsAs.pure (a' a : α) : EndsAs ok p (Pure.pure a') (Pure.pure a) := by
  intro c s o b t hl hprune hp hs hrun
  cases hrun
  exact ⟨a', rfl⟩

/-- Only the result is made into another one. -/
theorem EndsAs.bind_pure {g g' : α → β} (h : EndsAs ok p m' m) :
    EndsAs ok p (m' >>= fun a => Pure.pure (g' a)) (m >>= fun a => Pure.pure (g a)) := by
  intro c s o b t hl hprune hp hs hrun
  obtain ⟨a, u, hfirst, hpure⟩ := bind_eq_ok hrun
  cases hpure
  obtain ⟨a', hfirst'⟩ := h c s o a t hl hprune hp hs hfirst
  exact ⟨g' a', bind_apply_ok hfirst'⟩

theorem EndsAs.bind (hok : ∀ o o', o.Alike o' → ok o → ok o') (h : EndsAs ok p m' m)
    (hm : Passing ok m) (hf : ∀ a' a, EndsAs ok p (f' a') (f a)) :
    EndsAs ok p (m' >>= f') (m >>= f) := by
  intro c s o b u hl hprune hp hs hrun
  obtain ⟨a, t, hfirst, hrest⟩ := bind_eq_ok hrun
  obtain ⟨a', hfirst'⟩ := h c s o a t hl hprune hp hs hfirst
  obtain ⟨hconfig, o', halike, hl'⟩ := (hm c s o hl hs).apply hfirst
  obtain ⟨b', hrest'⟩ := hf a' a c t o' b u hl' (by rwa [hconfig]) (by rwa [halike.permits])
    (hok o o' halike hs) hrest
  exact ⟨b', (bind_apply_ok hfirst').trans hrest'⟩

/-- Checks that do the same, and then checks that end in the same state. -/
theorem AgreesIn.ends_bind (hok : ∀ o o', o.Alike o' → ok o → ok o') (h : AgreesIn ok p m' m)
    (hm : Passing ok m) (hf : ∀ a, EndsAs ok p (f' a) (f a)) :
    EndsAs ok p (m' >>= f') (m >>= f) := by
  intro c s o b u hl hprune hp hs hrun
  obtain ⟨a, t, hfirst, hrest⟩ := bind_eq_ok hrun
  obtain ⟨hconfig, o', halike, hl'⟩ := (hm c s o hl hs).apply hfirst
  obtain ⟨b', hrest'⟩ := hf a c t o' b u hl' (by rwa [hconfig]) (by rwa [halike.permits])
    (hok o o' halike hs) hrest
  exact ⟨b', (bind_apply_ok ((h c s o hl hprune hp hs).trans hfirst)).trans hrest'⟩

/-- What is done at one node, and then checks that end in the same state. -/
theorem Quiet.ends_bind (hm : Quiet .checking m)
    (hf : ∀ a, EndsAs ok p (f' a) (f a)) : EndsAs ok p (m >>= f') (m >>= f) := by
  intro c s o b u hl hprune hp hs hrun
  obtain ⟨a, t, hfirst, hrest⟩ := bind_eq_ok hrun
  obtain ⟨hsteps, hl'⟩ := (hm c s o hl).apply hfirst
  obtain ⟨b', hrest'⟩ :=
    hf a c t o b u hl' (by rwa [(Steps.frames hl hsteps).1.config]) hp hs hrest
  exact ⟨b', (bind_apply_ok hfirst).trans hrest'⟩

/-- A scope of a class or entity, in which no exit is permitted. -/
theorem EndsAs.container (tag : ScopeTag) (h : EndsAs (·.isRoot = false) {} m' m) :
    EndsAs (fun _ => True) {} (inScope (·.push tag { selfRef := true }) m')
      (inScope (·.push tag { selfRef := true }) m) := by
  intro c s o a t hl hprune hp _ hrun
  have hopen : ∀ env, s.own? c = some env → env.scopes.outline = o →
      (env.scopes.push tag { selfRef := true }).outline =
          o.cons (o.pushedScope tag.outline { selfRef := true }) ∧
        Phase.visiting.KeepsRoot env.scopes (env.scopes.push tag { selfRef := true }) :=
    fun env _ ho => ⟨ho ▸ (env.scopes.push_opens tag { selfRef := true }).1,
      .of_bindings_eq .visiting (env.scopes.push_opens tag { selfRef := true }).2⟩
  obtain ⟨⟨⟩, u, hpush, hrest⟩ := bind_eq_ok hrun
  obtain ⟨b, v, hm, hclose⟩ := bind_eq_ok hrest
  obtain ⟨hsteps, hl', -⟩ := (runs_modifyScopes .visiting hl hopen).apply hpush
  have hpermits : (o.pushedScope tag.outline { selfRef := true }).permits.exits = {} := by
    rw [ScopeStack.pushedScope, Permissions.exits_union, hp]
    rfl
  obtain ⟨b', hm'⟩ := h c u _ b v hl' (by rwa [(Steps.frames hl hsteps).1.config]) hpermits rfl hm
  obtain ⟨closed, w, hclosed, hpure⟩ := bind_eq_ok hclose
  cases hpure
  refine ⟨(b', closed), ?_⟩
  unfold inScope
  rw [bind_apply_ok hpush, bind_apply_ok hm', bind_apply_ok hclosed]
  rfl

/-- A check does not come back to the root. -/
theorem below_alike (o o' : ScopeStack) (h : o.Alike o') (hbelow : o.isRoot = false) :
    o'.isRoot = false := h.isRoot.trans hbelow

/-! ## Parts of classes and entities -/

/-- The initializers of fields, in which no exit is permitted. -/
theorem agrees_initializers (decls : List VariableDecl) (owner : DeclRef) (kind : NamedKind)
    (members : Members) : AgreesIn (·.isRoot = false) {}
      (initializers (decls.map (·.blank)) owner kind members)
      (initializers decls owner kind members) := by
  induction decls with
  | nil => exact .refl _
  | cons decl rest ih =>
    obtain ⟨names, ty, exprs, isPub, isConst, span⟩ := decl
    have hvalues (hints : List Ty) : Agrees {}
        (inScope (·.pushRestricted .plain { selfRef := true })
          (values (Expr.blankAll {} exprs) hints))
        (inScope (·.pushRestricted .plain { selfRef := true }) (values exprs hints)) :=
      (agrees_values {} exprs hints).inScope (·.restrictedScope .plain { selfRef := true })
        (fun stack => stack.pushRestricted_opens .plain { selfRef := true }) (fun _ => trivial)
        fun o ho => by
          rw [← ho]
          simp [ScopeStack.restrictedScope, Permissions.diff, Permissions.exits]
    have hpassing (hints : List Ty) : Passing (·.isRoot = false)
        (inScope (·.pushRestricted .plain { selfRef := true }) (values exprs hints)) :=
      (reports_restrictedValues exprs hints).within.passing
    have hfields (values : List (Value × Span)) : Passing (·.isRoot = false)
        (checkInitializers owner kind names (registeredValues members names) values) :=
      (reports_checkInitializers owner kind names (registeredValues members names) values).passing
    have hcount (given : List (Value × Span)) :
        Quiet .checking (checkValueCount names.length given span "field") :=
      quiet_checkValueCount _ _ _ _
    rw [List.map_cons, VariableDecl.blank]
    unfold initializers
    rw [Expr.isEmpty_blankAll]
    dsimp only
    split
    · next hnone =>
      obtain rfl : exprs = [] := by simpa using hnone
      exact (Quiet.pure _).agrees_bind fun _ => ih.bind_left _
    · exact (hvalues _).within.bind below_alike (hpassing _) fun _ => (hcount _).agrees_bind
        fun _ => (AgreesIn.refl _).bind below_alike (hfields _) fun _ =>
          (Quiet.pure _).agrees_bind fun _ => ih.bind_left _

/-- A constructor is walked if it is registered. -/
theorem ends_constructorBody (decl : Option ConstructorDecl) (signature : Option Signature) :
    EndsAs ok p (constructorBody (decl.map (·.blank)) signature)
      (constructorBody decl signature) := by
  cases decl with
  | none => exact .pure _ _
  | some decl =>
    obtain ⟨generics, params, stmts, span⟩ := decl
    cases signature with
    | none => exact .pure _ _
    | some signature =>
      have hbody := agrees_body (agrees_stmts { returns := true } stmts)
      exact (Agrees.within ((agrees_inFunction signature params span hbody).bind_left _)).ends

theorem agrees_methodBodies (decls : List FunctionDecl) (members : Members) :
    Agrees p (methodBodies (decls.map (·.blank)) members) (methodBodies decls members) := by
  induction decls with
  | nil => exact .refl _
  | cons decl rest ih =>
    obtain ⟨name, generics, params, returns, stmts, isPub, span⟩ := decl
    have hbody := agrees_body (agrees_stmts { returns := true } stmts)
    have hpassing (signature : Signature) : Passing (fun _ => True)
        (inFunction signature params span (body stmts false)) :=
      (quiet_inFunction signature params span (leaves_body stmts false)).passing
    exact (quiet_methodSignature _ _ _ _ _).agrees_bind fun _ =>
      (agrees_inFunction _ _ _ hbody).bind (hpassing _) fun _ => ih.bind_left _

theorem agrees_firstSpawn (decls : List LifecycleDecl) (entity : EntityInfo) :
    Agrees p (firstSpawn (decls.map (·.blank)) entity) (firstSpawn decls entity) := by
  induction decls with
  | nil => exact .refl _
  | cons decl rest ih =>
    obtain ⟨kind, generics, params, returns, stmts, span⟩ := decl
    have hbody := agrees_body (agrees_stmts { returns := true } stmts)
    rw [List.map_cons, LifecycleDecl.blank]
    unfold firstSpawn
    dsimp only
    split
    · exact (quiet_walkedSignature _ _ _ _ _ _).agrees_bind fun _ =>
        (agrees_inFunction _ _ _ hbody).bind_left _
    · exact ih

theorem agrees_otherLifecycles (decls : List LifecycleDecl) (entity : EntityInfo)
    (spawned : Option LifecycleDecl) (seen : List LifecycleKind) :
    Agrees p (otherLifecycles (decls.map (·.blank)) entity spawned seen)
      (otherLifecycles decls entity spawned seen) := by
  induction decls generalizing spawned seen with
  | nil => exact .refl _
  | cons decl rest ih =>
    obtain ⟨kind, generics, params, returns, stmts, span⟩ := decl
    have hbody := agrees_body (agrees_stmts { returns := true } stmts)
    have hpassing (signature : Signature) : Passing (fun _ => True)
        (inFunction signature params span (body stmts false)) :=
      (quiet_inFunction signature params span (leaves_body stmts false)).passing
    rw [List.map_cons, LifecycleDecl.blank]
    unfold otherLifecycles
    dsimp only
    split
    · exact (ih none seen).bind_left _
    · exact (quiet_walkedSignature _ _ _ _ _ _).agrees_bind fun _ =>
        (agrees_inFunction _ _ _ hbody).bind (hpassing _) fun _ =>
          .guard (quiet_checkFieldsInitialized _) fun _ => (ih _ _).bind_left _

/-- A class. -/
theorem ends_classBody (fields : List VariableDecl) (methods : List FunctionDecl)
    (constructor : Option ConstructorDecl) (info : ClassInfo) : EndsAs (·.isRoot = false) {}
      (do
        bindMembers info.members
        let fields ← initializers (fields.map (·.blank)) info.ty .classDecl info.members
        let constructor ← constructorBody (constructor.map (·.blank)) info.constructor
        let methods ← methodBodies (methods.map (·.blank)) info.members
        pure (fields, constructor, methods))
      (do
        bindMembers info.members
        let fields ← initializers fields info.ty .classDecl info.members
        let constructor ← constructorBody constructor info.constructor
        let methods ← methodBodies methods info.members
        pure (fields, constructor, methods)) := by
  have hfields := agrees_initializers fields info.ty .classDecl info.members
  have hpassing : Passing (·.isRoot = false)
      (initializers fields info.ty .classDecl info.members) :=
    (reports_initializers fields info.ty .classDecl info.members).passing
  exact (quiet_bindMembers _).ends_bind fun _ => hfields.ends_bind below_alike hpassing fun _ =>
    (ends_constructorBody _ _).bind below_alike (quiet_constructorBody _ _).passing fun _ _ =>
      (Agrees.within (agrees_methodBodies _ _)).ends.bind_pure

/-- An entity. -/
theorem agrees_entityBody (fields : List VariableDecl) (methods : List FunctionDecl)
    (functions : List LifecycleDecl) (info : EntityInfo) :
    AgreesIn (·.isRoot = false) {}
      (do
        bindMembers info.members
        let fields ← initializers (fields.map (·.blank)) info.ty .entityDecl info.members
        let (spawned, seen) ← firstSpawn (functions.map (·.blank)) info
        let functions ← otherLifecycles (functions.map (·.blank)) info spawned seen
        let methods ← methodBodies (methods.map (·.blank)) info.members
        pure (fields, functions, methods))
      (do
        bindMembers info.members
        let fields ← initializers fields info.ty .entityDecl info.members
        let (spawned, seen) ← firstSpawn functions info
        let functions ← otherLifecycles functions info spawned seen
        let methods ← methodBodies methods info.members
        pure (fields, functions, methods)) := by
  have hfields := agrees_initializers fields info.ty .entityDecl info.members
  have hpassing : Passing (·.isRoot = false)
      (initializers fields info.ty .entityDecl info.members) :=
    (reports_initializers fields info.ty .entityDecl info.members).passing
  exact (quiet_bindMembers _).agrees_bind fun _ => hfields.bind below_alike hpassing fun _ =>
    (Agrees.within (agrees_firstSpawn _ _)).bind below_alike (quiet_firstSpawn _ _).passing fun _ =>
      (Agrees.within (agrees_otherLifecycles _ _ _ _)).bind below_alike
        (quiet_otherLifecycles _ _ _ _).passing fun _ =>
          (Agrees.within (agrees_methodBodies _ _)).bind_left _

/-! ## The root -/

/-- A statement at the root. -/
theorem ends_rootStmt (st : Stmt) :
    EndsAs (fun _ => True) {} (stmt st.blankRoot) (stmt st) := by
  cases st with
  | classDecl decl =>
    obtain ⟨name, isPub, fields, methods, constructor, span⟩ := decl
    have hinner (info : ClassInfo) := ends_classBody fields methods constructor info
    refine (quiet_atRoot _ _).ends_bind fun isRoot => ?_
    dsimp only
    split
    · refine (quiet_ownClass? _).ends_bind fun found => ?_
      cases found with
      | none => exact .pure _ _
      | some info =>
        exact (EndsAs.container (.classBody info.ty) (hinner info)).bind_pure
    · exact .pure _ _
  | entityDecl decl =>
    obtain ⟨name, isPub, fields, methods, functions, span⟩ := decl
    have hinner (info : EntityInfo) := agrees_entityBody fields methods functions info
    refine (quiet_atRoot _ _).ends_bind fun isRoot => ?_
    dsimp only
    split
    · refine (quiet_ownEntity? _).ends_bind fun found => ?_
      cases found with
      | none => exact .pure _ _
      | some info =>
        exact (EndsAs.container (.entityBody info.ty) (hinner info).ends).bind_pure
    · exact .pure _ _
  | _ => exact (agrees_stmt {} _).ends

/-- Statements at the root one after the other, by induction. Nothing is permitted there, so none of
them is dead. -/
theorem ends_eachStmt (hl : Live c s {}) (hprune : s.session.config.prune = true)
    {stmts out : List Stmt} (hrun : eachStmt stmts c s = .ok (out, t)) :
    ∃ out', eachStmt (stmts.map Stmt.blankRoot) c s = .ok (out', t) := by
  induction stmts generalizing s out with
  | nil => exact ⟨out, hrun⟩
  | cons first rest ih =>
    have hstmt : Leaves .checking (stmt first) (first.leaves ·) := leaves_stmt first
    have hclear : Quiet .checking clearNarrowings := quiet_clearNarrowings
    obtain ⟨first', u, hfirst, hothers⟩ := bind_eq_ok hrun
    obtain ⟨⟨⟩, v, hcleared, hothers⟩ := bind_eq_ok hothers
    obtain ⟨out', w, hrest, hpure⟩ := bind_eq_ok hothers
    cases hpure
    obtain ⟨hsteps, x, hx, hlu⟩ := (hstmt c s {} hl trivial (.inl rfl)).apply hfirst
    obtain rfl := hx.silent (Stmt.leaves_nothing first)
    rw [ScopeStack.addExits_empty] at hlu
    obtain ⟨hsteps', hlv⟩ := (hclear c u _ hlu).apply hcleared
    have hconfig : v.session.config = s.session.config :=
      (Steps.frames hlu hsteps').1.config.trans (Steps.frames hl hsteps).1.config
    obtain ⟨blanked, hblanked⟩ := ends_rootStmt first c s {} first' u hl hprune rfl trivial hfirst
    obtain ⟨out'', hrest'⟩ := ih hlv (by rwa [hconfig]) hrest
    refine ⟨blanked :: out'', ?_⟩
    rw [List.map_cons, eachStmt, bind_apply_ok hblanked, bind_apply_ok hcleared,
      bind_apply_ok hrest']
    rfl

/-- The check of a program. -/
theorem ends_program (hl : Live c s {}) (hprune : s.session.config.prune = true)
    {program out : Program} (hrun : Check.program program c s = .ok (out, t)) :
    ∃ out', Check.program program.blank c s = .ok (out', t) := by
  have hbody {stmts out : List Stmt} (hrun : body stmts false c s = .ok (out, t)) :
      ∃ out', body (stmts.map Stmt.blankRoot) false c s = .ok (out', t) := by
    rw [body_root hl] at hrun ⊢
    exact ends_eachStmt hl hprune hrun
  unfold Check.program at hrun ⊢
  split at hrun
  · next decl rest =>
    obtain ⟨out', u, hrest, hpure⟩ := bind_eq_ok hrun
    cases hpure
    obtain ⟨blanked, hblanked⟩ := hbody hrest
    refine ⟨.env decl :: blanked, ?_⟩
    simp only [Program.blank, List.map_cons, Stmt.blankRoot, Stmt.blank]
    exact bind_apply_ok hblanked
  · next hfirst =>
    cases program with
    | nil => exact hbody hrun
    | cons first rest =>
      cases first with
      | env decl => exact (hfirst decl rest rfl).elim
      | «variable» decl | function decl =>
        cases decl
        exact hbody hrun
      | _ => exact hbody hrun

/-- A walk. -/
theorem ends_walkProgram (hl : Live c s {}) (hprune : s.session.config.prune = true)
    {program out : Program} (hrun : Session.walkProgram program c s = .ok (out, t)) :
    ∃ out', Session.walkProgram program.blank c s = .ok (out', t) := by
  obtain ⟨counts, u, hdeclare, hcheck⟩ := bind_eq_ok hrun
  obtain ⟨s₀, s₁, s₂, s₃, himport, hclaim, hresolve, hfill, hbind, hl'⟩ :=
    (runs_declare hl program).apply hdeclare
  have hroute := (((himport.route.trans hclaim.route).trans hresolve.route).trans
    hfill.route).trans hbind.route
  have hconfig : u.session.config = s.session.config := (Route.frames hl hroute).1.config
  obtain ⟨out', hcheck'⟩ := ends_program hl' (by rwa [hconfig]) hcheck
  refine ⟨out', ?_⟩
  unfold Session.walkProgram
  rw [Declare.program_blank, bind_apply_ok hdeclare]
  exact hcheck'

end Check

/-! ## Builds -/

open Check

variable {config : Config}

/-- A program with other dead statements leaves the same state if its walk begins in the same
one. -/
theorem FinishedWalk.of_blank_eq {id : EnvId} {p q out : Program} {c : Context} {s t : State}
    (h : FinishedWalk config id p out c s t) (hprune : config.prune = true)
    (hblank : q.blank = p.blank) : ∃ out', FinishedWalk config id q out' c s t := by
  have hprune' : s.session.config.prune = true := by rw [h.settings, hprune]
  obtain ⟨out', t', hrun, -⟩ := runs_walkProgram h.live q
  obtain ⟨_, hp⟩ := ends_walkProgram h.live hprune' h.run
  obtain ⟨_, hq⟩ := ends_walkProgram h.live hprune' hrun
  rw [hblank, hp] at hq
  cases hq
  exact ⟨out', h.own, h.nested, h.live, h.isNew, h.settings, h.alerts, h.narrowings, hrun, h.clean⟩

/-- What pruning changes, and what it does not. A build in which nothing is found unreachable comes
to the same with and without pruning. With pruning, the alerts of every file are those that a
program with any other dead statements would leave in its place. -/
theorem analyze_ignores_dead_statements {files : List (String × Program)} {out : BuildOutput}
    (h : analyze config files = .ok out) :
    ((∀ alerts ∈ out.alerts, alerts.AllReached) →
      ∀ b, analyze { config with prune := b } files = .ok out) ∧
    (config.prune = true → ∀ i path p, files[i]? = some (path, p) →
      ∃ walked c s t, FinishedWalk config (.user i) p walked c s t ∧
        out.alerts[i]? = some
          (((Session.ofFiles config (files.take i)).header path p).2.2.append t.alerts) ∧
        ∀ q : Program, q.blank = p.blank →
          ∃ walked', FinishedWalk config (.user i) q walked' c s t) := by
  refine ⟨analyze_of_all_reached h, fun hprune i path p hfile => ?_⟩
  obtain ⟨-, -, -, hfiles⟩ := finished_of_analyze h
  obtain ⟨walked, c, s, t, env, hwalk, -, -, -, halerts⟩ := hfiles i path p hfile
  exact ⟨walked, c, s, t, hwalk, halerts, fun q hblank => hwalk.of_blank_eq hprune hblank⟩

/-! ## A constructor that returns too early -/

/-- A class with a field `f` of a number, and a constructor with the given statements. -/
def constructedClass (stmts : List Stmt) : Program :=
  let f : Ident := ⟨"f", .synthetic⟩
  [.level "Main",
    .classDecl ⟨⟨"C", .synthetic⟩, false,
      [⟨[f], some ⟨none, ⟨"number", .synthetic⟩, [], [], [], false, .synthetic⟩, [], false, false,
        .synthetic⟩], [],
      some ⟨[], [], stmts, .synthetic⟩, .synthetic⟩]

/-- The statement that sets the field. -/
def setField : Stmt :=
  .assign [.field (.self none .synthetic) ⟨"f", .synthetic⟩ none .synthetic] .plain
    [.literal ⟨.number, "1", .synthetic⟩] .synthetic

/-- Pruning makes no difference to a constructor that sets the field and then returns. In one that
returns before, another statement may stand in the place of the one that sets the field. -/
theorem analyze_ignores_dead_setField :
    (∃ out, analyze { prune := true }
        [("main.hyb", constructedClass [setField, .returning [] .synthetic])] = .ok out ∧
      (∀ alerts ∈ out.alerts, alerts.AllReached) ∧
      analyze { prune := false }
        [("main.hyb", constructedClass [setField, .returning [] .synthetic])] = .ok out) ∧
    ∃ out walked walked' c s t, analyze { prune := true }
        [("main.hyb", constructedClass [.returning [] .synthetic, setField])] = .ok out ∧
      FinishedWalk { prune := true } (.user 0)
        (constructedClass [.returning [] .synthetic, setField]) walked c s t ∧
      out.alerts[0]? = some (((Session.ofFiles { prune := true } []).header "main.hyb"
        (constructedClass [.returning [] .synthetic, setField])).2.2.append t.alerts) ∧
      (constructedClass [.returning [] .synthetic, .breaking .synthetic]).blank =
        (constructedClass [.returning [] .synthetic, setField]).blank ∧
      FinishedWalk { prune := true } (.user 0)
        (constructedClass [.returning [] .synthetic, .breaking .synthetic]) walked' c s t := by
  have hlive : (analyze { prune := true }
      [("main.hyb", constructedClass [setField, .returning [] .synthetic])]).toOption.any
      (·.codes.all (·.all (· != .unreachableCode))) = true := by
    decide +kernel
  have hdead : (analyze { prune := true }
      [("main.hyb", constructedClass [.returning [] .synthetic, setField])]).toOption.isSome =
      true := by
    decide +kernel
  refine ⟨?_, ?_⟩
  · obtain ⟨out, h, hcodes⟩ := Check.exists_eq_ok_of_any hlive
    simp only [List.all_eq_true] at hcodes
    have hreached : ∀ alerts ∈ out.alerts, alerts.AllReached := by
      intro alerts halerts a ha hkind
      have hcode := hcodes _ (List.mem_map_of_mem halerts) _ (List.mem_map_of_mem ha)
      rw [Alert.code, hkind] at hcode
      cases hcode
    exact ⟨out, h, hreached, (analyze_ignores_dead_statements h).1 hreached false⟩
  · cases h : analyze { prune := true }
        [("main.hyb", constructedClass [.returning [] .synthetic, setField])] with
    | error e =>
      rw [h] at hdead
      cases hdead
    | ok out =>
      obtain ⟨walked, c, s, t, hwalk, halerts, hsame⟩ :=
        (analyze_ignores_dead_statements h).2 rfl 0 "main.hyb" _ rfl
      have hblank : (constructedClass [.returning [] .synthetic, .breaking .synthetic]).blank =
          (constructedClass [.returning [] .synthetic, setField]).blank := rfl
      obtain ⟨walked', hwalk'⟩ := hsame _ hblank
      exact ⟨out, walked, walked', c, s, t, rfl, hwalk, halerts, hblank, hwalk'⟩

end HybroidSema
