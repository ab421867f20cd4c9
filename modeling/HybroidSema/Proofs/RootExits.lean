import HybroidSema.Proofs.FinishedWalks
import HybroidSema.Proofs.MissingExits
import HybroidSema.Proofs.Registered

/-!
# Missing exits at the top level

Functions, classes and entities at the root are checked with the signatures that were registered
for them. A registered signature has as many return types as its declaration, so what a walk of the
declaration reports is what its forms lack.

* `reports_initializers`, `reports_constructorBody`, `reports_methodBodies`, `reports_firstSpawn` and
  `reports_otherLifecycles`: the parts of a class or entity.
* `finishes_rootStmt`: one statement at the root.
* `missing_program`: the whole program, by induction on its statements.
* `analyze_reports_missing_exits`: every file of a build.
-/

namespace HybroidSema

namespace Check

variable {α β : Type} {m : Check α} {f : α → Check β} {c : Context} {s s' : State}

/-! ## Parts of classes and entities -/

/-- A field that takes the type of its initializer reports nothing. -/
theorem reports_checkInitializers (owner : DeclRef) (kind : NamedKind) (names : List Ident)
    (registered : List (Option Value)) (values : List (Value × Span)) :
    ReportsIn Below (checkInitializers owner kind names registered values) fun _ _ => [] := by
  intro c s o hl hbelow
  obtain ⟨below, scope, rfl⟩ : ∃ below scope, o = ScopeStack.cons below scope := by
    obtain ⟨root, inner⟩ := o
    cases inner with
    | nil => cases hbelow
    | cons scope rest => exact ⟨⟨root, rest⟩, scope, rfl⟩
  exact (runs_checkInitializers hl owner kind names registered values).mono fun _ _ ht =>
    .of_steps ht.1 (.refl _) ht.2

/-- The initializers of one declaration, in a scope without `self`. -/
theorem reports_restrictedValues (exprs : List Expr) (hints : List Ty) :
    Reports (inScope (·.pushRestricted .plain { selfRef := true }) (values exprs hints))
      (Expr.allForms · · exprs) :=
  (reports_values (reports_exprs exprs) hints).inScope (·.restrictedScope .plain { selfRef := true })
    (fun stack => stack.pushRestricted_opens .plain { selfRef := true }) (fun _ _ => trivial)
    fun prune o => by simp [ScopeStack.restrictedScope, Permissions.diff, Permissions.exits]

/-- The initializers of fields finish the forms in them. -/
theorem reports_initializers (decls : List VariableDecl) (owner : DeclRef) (kind : NamedKind)
    (members : Members) : ReportsIn Below (initializers decls owner kind members) fun prune p =>
      decls.flatMap fun decl => Expr.allForms prune p decl.values := by
  induction decls with
  | nil => exact (Quiet.pure _).reports
  | cons decl rest ih =>
    obtain ⟨names, ty, exprs, isPub, isConst, span⟩ := decl
    unfold initializers
    dsimp only
    split
    · next hnone =>
      obtain rfl : exprs = [] := by simpa using hnone
      exact (Quiet.pure _).reports_bind fun _ => ih.bind_pure
    · refine (ReportsIn.bind stable_below (reports_restrictedValues _ _).within fun r =>
        (quiet_checkValueCount _ _ _ _).reports_bind fun _ => ReportsIn.bind stable_below
          (reports_checkInitializers _ _ _ _ _) fun _ => (Quiet.pure _).reports_bind
            fun _ => ih.bind_pure).congr fun prune p => ?_
      simp

/-- A constructor returns nothing, and is checked if it is registered. -/
theorem reports_constructorBody (decl : Option ConstructorDecl) (signature : Option Signature)
    (hreturns : ∀ s ∈ signature, s.returns = []) (hsome : signature.isSome = decl.isSome) :
    Reports (constructorBody decl signature)
      fun prune _ => decl.toList.flatMap (·.forms prune) := by
  cases decl with
  | none => exact (Quiet.pure _).reports
  | some decl =>
    obtain ⟨generics, params, stmts, span⟩ := decl
    cases signature with
    | none => cases hsome
    | some signature =>
      have hlength : signature.returns.length = ([] : List TypeExpr).length := by
        rw [hreturns signature rfl]
        rfl
      have hbody := reports_inFunction hlength params span (reports_body (reports_stmts stmts))
      refine (hbody.bind_quiet fun _ =>
        (quiet_checkFieldsInitialized _).bind fun _ => .pure _).congr fun prune p => ?_
      simp [ConstructorDecl.forms]

/-- A method has the signature that its declaration registered. -/
theorem gives_methodSignature {members : Members} {decls : List FunctionDecl}
    (hfrom : members.From decls) (hdistinct : {m | m ∈ decls}.InjOn FunctionDecl.name)
    {decl : FunctionDecl} (hdecl : decl ∈ decls) :
    Gives (methodSignature members decl.name decl.generics decl.params decl.returns)
      fun signature => signature.returns.length = decl.returns.length := by
  unfold methodSignature
  split
  · next method hmethod =>
    split
    · next hspan =>
      obtain ⟨other, hother, hname, hlength⟩ := hfrom _ _ hmethod
      have hsame : other.name = decl.name := by rw [hname, hspan]
      obtain rfl := hdistinct hother hdecl hsame
      exact .pure hlength
    · exact gives_resolveSignature _ _ _
  · exact gives_resolveSignature _ _ _

theorem reports_methodBodies {members : Members} {all : List FunctionDecl}
    (hfrom : members.From all) (hdistinct : {m | m ∈ all}.InjOn FunctionDecl.name)
    {decls : List FunctionDecl} (hsub : ∀ d ∈ decls, d ∈ all) :
    Reports (methodBodies decls members) fun prune _ => decls.flatMap (·.forms prune) := by
  induction decls with
  | nil => exact (Quiet.pure _).reports
  | cons decl rest ih =>
    rw [List.forall_mem_cons] at hsub
    have hsignature := gives_methodSignature hfrom hdistinct hsub.1
    obtain ⟨name, generics, params, returns, stmts, isPub, span⟩ := decl
    refine Quiet.reports_bind_of (quiet_methodSignature _ _ _ _ _) hsignature
      fun signature hlength => ?_
    exact (reports_inFunction hlength params span (reports_body (reports_stmts stmts))).bind
      fun _ => (ih hsub.2).bind_pure

/-! ## Lifecycle functions -/

/-- The lifecycle function of a kind that is not yet walked is the first one of the kind among
those that are left. -/
def Pending (entity : EntityInfo) (seen : List LifecycleKind) (decls : List LifecycleDecl) : Prop :=
  ∀ kind signature, entity.lifecycle? kind = some signature → kind ∈ seen ∨
    ∃ first, LifecycleDecl.first? decls kind = some first ∧
      signature.returns.length = first.returns.length

theorem first?_cons (decl : LifecycleDecl) (rest : List LifecycleDecl) (kind : LifecycleKind) :
    LifecycleDecl.first? (decl :: rest) kind =
      if decl.kind = kind then some decl else LifecycleDecl.first? rest kind := by
  simp only [LifecycleDecl.first?]
  split
  · next h => exact List.find?_cons_of_pos (by simpa using h)
  · next h => exact List.find?_cons_of_neg (by simpa using h)

/-- Whether a lifecycle function is the first one of its kind to be walked. -/
def isFirst (entity : EntityInfo) (seen : List LifecycleKind) (kind : LifecycleKind) : Bool :=
  (entity.lifecycle? kind).isSome && !seen.contains kind

section Lifecycles

variable {entity : EntityInfo} {seen : List LifecycleKind} {decl : LifecycleDecl}
  {decls rest : List LifecycleDecl}

theorem Pending.first (h : Pending entity seen (decl :: rest)) (signature : Signature)
    (hsignature : entity.lifecycle? decl.kind = some signature) (hunseen : decl.kind ∉ seen) :
    signature.returns.length = decl.returns.length := by
  obtain ⟨first, hfirst, hlength⟩ := (h _ _ hsignature).resolve_left hunseen
  rw [first?_cons, if_pos rfl] at hfirst
  cases hfirst
  exact hlength

/-- A lifecycle function is left behind once its kind was walked, or is not registered. -/
theorem Pending.skip (h : Pending entity seen (decl :: rest))
    (hseen : ∀ signature, entity.lifecycle? decl.kind = some signature → decl.kind ∈ seen) :
    Pending entity seen rest := by
  intro kind signature hsignature
  rcases h kind signature hsignature with hwalked | ⟨first, hfirst, hlength⟩
  · exact .inl hwalked
  · rw [first?_cons] at hfirst
    split at hfirst
    · next heq =>
      subst heq
      exact .inl (hseen signature hsignature)
    · exact .inr ⟨first, hfirst, hlength⟩

theorem Pending.step (h : Pending entity seen (decl :: rest)) :
    Pending entity (if isFirst entity seen decl.kind then decl.kind :: seen else seen) rest := by
  have hmore (seen' : List LifecycleKind) (hsub : ∀ kind ∈ seen, kind ∈ seen') :
      Pending entity seen' (decl :: rest) := fun kind signature hsignature =>
    (h kind signature hsignature).imp_left (hsub kind)
  split
  · exact (hmore _ fun _ hkind => by simp [hkind]).skip fun _ _ => by simp
  · next hnot =>
    refine h.skip fun signature hsignature => ?_
    simpa [isFirst, hsignature] using hnot

/-- A lifecycle function has the signature that it registered, or one of its own. -/
theorem gives_walkedSignature (seen : List LifecycleKind) (decl : LifecycleDecl)
    (h : ∀ signature, entity.lifecycle? decl.kind = some signature → decl.kind ∉ seen →
      signature.returns.length = decl.returns.length) :
    Gives (walkedSignature entity seen decl.kind decl.generics decl.params decl.returns)
      fun r => r.1.returns.length = decl.returns.length ∧ r.2 = isFirst entity seen decl.kind := by
  unfold walkedSignature isFirst
  split
  · next signature hsignature =>
    split
    · next hseen =>
      exact .bind_of (gives_resolveSignature _ _ _) fun _ hlength =>
        .pure ⟨hlength, by rw [hseen]; simp⟩
    · next hunseen =>
      have hnot : decl.kind ∉ seen := by simpa using hunseen
      exact .pure ⟨h signature hsignature hnot, by simp [hsignature, hnot]⟩
  · next hnone =>
    exact .bind_of (gives_resolveSignature _ _ _) fun _ hlength => .pure ⟨hlength, by simp [hnone]⟩

/-- The first spawn function finishes the forms in it, and then itself. -/
theorem reports_firstSpawn
    (h : ∀ first signature, LifecycleDecl.first? decls .spawn = some first →
      entity.lifecycle? .spawn = some signature →
      signature.returns.length = first.returns.length) :
    Reports (firstSpawn decls entity) fun prune _ =>
      (LifecycleDecl.first? decls .spawn).toList.flatMap (·.forms prune) := by
  induction decls with
  | nil => exact (Quiet.pure _).reports
  | cons decl rest ih =>
    obtain ⟨kind, generics, params, returns, stmts, span⟩ := decl
    simp only [first?_cons] at h ⊢
    unfold firstSpawn
    split
    · next hspawn =>
      subst hspawn
      have hsignature := gives_walkedSignature [] ⟨.spawn, generics, params, returns, stmts, span⟩
        fun signature hregistered _ => h _ signature rfl hregistered
      refine (Quiet.reports_bind_of (quiet_walkedSignature _ _ _ _ _ _) hsignature fun r hr =>
        (reports_inFunction hr.1 params span (reports_body (reports_stmts stmts))).bind_quiet
          fun _ => .guard (quiet_checkFieldsInitialized _) fun _ => .pure _).congr fun _ _ => ?_
      simp [LifecycleDecl.forms]
    · next hother =>
      simp only [if_neg hother] at h
      exact ih h

/-- The first spawn function is found if there is one, and its kind counts as walked. -/
theorem gives_firstSpawn (decls : List LifecycleDecl) (entity : EntityInfo) :
    Gives (firstSpawn decls entity) fun r =>
      r.1.isSome = (LifecycleDecl.first? decls .spawn).isSome ∧
        (r.1.isSome = true → ∀ signature, entity.lifecycle? .spawn = some signature →
          .spawn ∈ r.2) := by
  induction decls with
  | nil => exact .pure ⟨rfl, (absurd · Bool.false_ne_true)⟩
  | cons decl rest ih =>
    obtain ⟨kind, generics, params, returns, stmts, span⟩ := decl
    rw [first?_cons]
    unfold firstSpawn
    split
    · next hspawn =>
      subst hspawn
      have hfirst : Gives (walkedSignature entity [] .spawn generics params returns) fun r =>
          ∀ signature, entity.lifecycle? .spawn = some signature → r.2 = true := by
        unfold walkedSignature
        split
        · exact .pure fun _ _ => rfl
        · next hnone =>
          refine .bind fun _ => .pure fun _ hsome => ?_
          rw [hnone] at hsome
          cases hsome
      refine .bind_of hfirst fun r hr => .bind fun stmts' => ?_
      dsimp only
      split
      · exact .bind fun _ => .pure ⟨rfl, fun _ _ _ => by simp⟩
      · next hnot => exact .pure ⟨rfl, fun _ signature hsome => absurd (hr signature hsome) hnot⟩
    · exact ih

/-- The lifecycle functions after the first spawn function finish the forms in them. -/
theorem reports_otherLifecycles {spawned : Option LifecycleDecl} (h : Pending entity seen decls)
    (hspawned : spawned.isSome = true → ∀ signature, entity.lifecycle? .spawn = some signature →
      .spawn ∈ seen) :
    Reports (otherLifecycles decls entity spawned seen) fun prune _ =>
      (if spawned.isSome then decls.eraseP (·.kind == .spawn) else decls).flatMap
        (·.forms prune) := by
  induction decls generalizing spawned seen with
  | nil => exact (Quiet.pure _).reports.congr fun _ _ => by simp
  | cons decl rest ih =>
    have hsignature := gives_walkedSignature seen decl h.first
    have hstep := h.step
    have hskip := h.skip
    obtain ⟨kind, generics, params, returns, stmts, span⟩ := decl
    dsimp only at hsignature hstep hskip
    unfold otherLifecycles
    split
    · -- The first spawn function was walked before.
      have hrest := @ih _ none (hskip (hspawned rfl)) fun hnone => Bool.noConfusion hnone
      exact hrest.bind_pure.congr fun _ _ => by simp
    · next hother =>
      have hrest : Reports (otherLifecycles rest entity spawned
          (if isFirst entity seen kind then kind :: seen else seen)) _ :=
        ih hstep fun hsome signature hregistered => by
          have hseen := hspawned hsome signature hregistered
          split
          · exact List.mem_cons_of_mem _ hseen
          · exact hseen
      refine ReportsIn.congr (F := fun prune _ =>
        Stmt.bodyForms prune { returns := true } stmts ++ [.function returns stmts span] ++
          (if spawned.isSome then rest.eraseP (·.kind == .spawn) else rest).flatMap
            (·.forms prune)) ?_ fun prune p => ?_
      · refine Quiet.reports_bind_of (quiet_walkedSignature _ _ _ _ _ _) hsignature fun r hr => ?_
        obtain ⟨signature, first⟩ := r
        obtain ⟨hlength, rfl⟩ := hr
        exact (reports_inFunction hlength params span (reports_body (reports_stmts stmts))).bind
          fun _ => .guard (quiet_checkFieldsInitialized _) fun _ => hrest.bind_pure
      · cases hsome : spawned with
        | none => simp [LifecycleDecl.forms]
        | some walked =>
          have hne : kind ≠ .spawn := hother walked hsome
          simp [LifecycleDecl.forms, hne]

end Lifecycles

/-! ## Classes and entities -/

/-- A check in the body of a class or entity permits the exits of the place around it. -/
theorem reports_container (tag : ScopeTag) {F : Bool → Permissions → List Form}
    (hm : ReportsIn Below m F) : Reports (inScope (·.push tag { selfRef := true }) m) F :=
  hm.inScope (·.pushedScope tag.outline { selfRef := true })
    (fun stack => stack.push_opens tag { selfRef := true }) (fun _ _ => rfl) fun prune o => by
      congr 1
      simp [ScopeStack.pushedScope, Permissions.exits, Permissions.union]

theorem reports_classBody {info : ClassInfo} {decl : ClassDecl} (hfrom : info.From decl)
    (hconstructor : info.constructor.isSome = decl.constructor.isSome)
    (hdistinct : {m | m ∈ decl.methods}.InjOn FunctionDecl.name) :
    ReportsIn Below (do
      bindMembers info.members
      let fields ← initializers decl.fields info.ty .classDecl info.members
      let constructor ← constructorBody decl.constructor info.constructor
      let methods ← methodBodies decl.methods info.members
      pure (fields, constructor, methods)) fun prune p =>
        (decl.fields.flatMap fun field => Expr.allForms prune p field.values) ++
          decl.constructor.toList.flatMap (·.forms prune) ++
            decl.methods.flatMap (·.forms prune) := by
  have hbodies := reports_constructorBody decl.constructor info.constructor hfrom.constructor
    hconstructor
  have hmethods := reports_methodBodies hfrom.methods hdistinct fun _ hd => hd
  refine ((quiet_bindMembers _).reports_bind fun _ => ReportsIn.bind stable_below
    (reports_initializers _ _ _ _) fun _ => ReportsIn.bind stable_below hbodies.within fun _ =>
      hmethods.within.bind_pure).congr fun prune p => ?_
  rw [List.append_assoc]

theorem spawnFirst_eq (decls : List LifecycleDecl) :
    LifecycleDecl.spawnFirst decls = (LifecycleDecl.first? decls .spawn).toList ++
      if (LifecycleDecl.first? decls .spawn).isSome then decls.eraseP (·.kind == .spawn)
      else decls := by
  rw [LifecycleDecl.spawnFirst, ← LifecycleDecl.first?]
  split
  · rfl
  · next hnone =>
    have hfree : ∀ decl ∈ decls, ¬(decl.kind == .spawn) = true := by
      simpa [LifecycleDecl.first?] using hnone
    rw [List.eraseP_of_forall_not hfree]

theorem reports_entityBody {info : EntityInfo} {decl : EntityDecl} (hfrom : info.From decl)
    (hdistinct : {m | m ∈ decl.methods}.InjOn FunctionDecl.name) :
    ReportsIn Below (do
      bindMembers info.members
      let fields ← initializers decl.fields info.ty .entityDecl info.members
      let (spawned, seen) ← firstSpawn decl.functions info
      let functions ← otherLifecycles decl.functions info spawned seen
      let methods ← methodBodies decl.methods info.members
      pure (fields, functions, methods)) fun prune p =>
        (decl.fields.flatMap fun field => Expr.allForms prune p field.values) ++
          (LifecycleDecl.spawnFirst decl.functions).flatMap (·.forms prune) ++
          decl.methods.flatMap (·.forms prune) := by
  have hpending (seen : List LifecycleKind) : Pending info seen decl.functions :=
    fun kind signature hsignature => .inr (hfrom.lifecycles kind signature hsignature)
  have hspawn : Reports (firstSpawn decl.functions info) _ :=
    reports_firstSpawn fun first signature hfirst hsignature => by
      obtain ⟨first', hfirst', hlength⟩ := hfrom.lifecycles _ _ hsignature
      obtain rfl := Option.some.inj (hfirst.symm.trans hfirst')
      exact hlength
  have hothers (spawned : Option LifecycleDecl) (seen : List LifecycleKind)
      (hspawned : spawned.isSome = (LifecycleDecl.first? decl.functions .spawn).isSome ∧
        (spawned.isSome = true → ∀ signature, info.lifecycle? .spawn = some signature →
          .spawn ∈ seen)) :
      Reports (otherLifecycles decl.functions info spawned seen) fun prune _ =>
        (if (LifecycleDecl.first? decl.functions .spawn).isSome
          then decl.functions.eraseP (·.kind == .spawn) else decl.functions).flatMap
            (·.forms prune) := by
    rw [← hspawned.1]
    exact reports_otherLifecycles (hpending seen) hspawned.2
  have hmethods := reports_methodBodies hfrom.methods hdistinct fun _ hd => hd
  refine ((quiet_bindMembers _).reports_bind fun _ => ReportsIn.bind stable_below
    (reports_initializers _ _ _ _) fun _ => ReportsIn.bind_of stable_below hspawn.within
      (gives_firstSpawn _ _) fun r hr => ReportsIn.bind stable_below (hothers r.1 r.2 hr).within
        fun _ => hmethods.within.bind_pure).congr fun prune p => ?_
  rw [spawnFirst_eq, List.flatMap_append]
  simp only [List.append_assoc]

/-! ## Statements at the root -/

section Root

variable {p : Program} {env : Environment}

/-- The program is registered in the own environment. -/
def HasDeclared (c : Context) (p : Program) (s : State) : Prop :=
  ∃ env, s.own? c = some env ∧ env.Registers p p p p

theorem HasDeclared.steps {o : ScopeStack} (h : HasDeclared c p s) (hl : Live c s o)
    (hsteps : Steps c .checking s s') : HasDeclared c p s' := by
  obtain ⟨env, hown, henv⟩ := h
  exact Steps.registers hl hsteps nofun nofun hown henv

/-- A type declaration has its name if the name is registered with its position. -/
theorem owns_iff (h : env.Registers p p p p) {name : Ident} {span : Span}
    (hspan : env.declaredSpan? name.name = some span) : p.owns name = true ↔ span = name.span := by
  rw [h.types] at hspan
  obtain ⟨id, hid, rfl⟩ := Option.map_eq_some_iff.1 hspan
  have hname : id.name = name.name := by simpa using List.find?_some hid
  rw [Program.owns, hid, beq_iff_eq, Option.some.injEq]
  refine ⟨fun heq => by rw [heq], fun heq => ?_⟩
  exact congrArg₂ Ident.mk hname heq

/-- A top-level function is checked with a signature that has the return types of its
declaration. -/
theorem runs_rootSignature (hl : Live c s {}) (hreg : HasDeclared c p s) (hp : p.Distinct)
    {decl : FunctionDecl} (hdecl : Stmt.function decl ∈ p) :
    Runs (functionSignature decl.name decl.generics decl.params decl.returns decl.isPub decl.span)
      c s fun signature t => (Steps c .visiting s t ∧ Live c t {}) ∧
        signature.returns.length = decl.returns.length := by
  have hquiet : Quiet .visiting (functionSignature decl.name decl.generics decl.params decl.returns
    decl.isPub decl.span) := quiet_functionSignature _ _ _ _ _ _
  obtain ⟨signature, t, hrun, hkept⟩ := hquiet c s {} hl
  refine ⟨signature, t, hrun, hkept, ?_⟩
  obtain ⟨env, hown, henv⟩ := hreg
  have hread {stack : ScopeStack} {u : State} (hscopes : scopes c s = .ok (stack, u)) :
      u = s ∧ stack = env.scopes ∧ stack.isRoot = true := by
    obtain ⟨hu, ho, env', hown', hstack⟩ := (runs_scopes hl).apply hscopes
    obtain rfl := Option.some.inj (hown.symm.trans hown')
    exact ⟨hu, hstack.symm, by rw [← stack.outline_isRoot, ho]; rfl⟩
  obtain ⟨stack, u, hscopes, hrest⟩ := bind_eq_ok hrun
  obtain ⟨rfl, -, hroot⟩ := hread hscopes
  simp only [hroot, if_true] at hrest
  obtain ⟨found, u', hlookup, hresult⟩ := bind_eq_ok hrest
  obtain ⟨stack', u'', hscopes', hfound⟩ := bind_eq_ok hlookup
  obtain ⟨rfl, rfl, -⟩ := hread hscopes'
  obtain ⟨v, hv, other, registered, hother, hname, hvalue, hlength⟩ := henv.functions decl hdecl
  simp only [hv, hvalue] at hfound
  cases hfound
  by_cases hspan : v.span = decl.name.span
  · rw [if_pos hspan] at hresult
    cases hresult
    obtain rfl : other = decl := hp.functions hother hdecl (by rw [hname, hspan])
    exact hlength
  · rw [if_neg hspan] at hresult
    exact gives_resolveSignature _ _ _ _ _ _ _ hresult

/-- A declaration at the root is found if it has its name. Otherwise the name belongs to another
declaration, or an error ends the build. -/
theorem runs_own? {γ : Type} {find : Check (Option γ)} (entry : Environment → Option γ)
    (spanOf : γ → Span) {name : Ident} {e : CompileError} (hl : Live c s {})
    (hown : s.own? c = some env) (henv : env.Registers p p p p) (hquiet : Quiet .visiting find)
    (hfind : find = environment >>= fun env =>
      (entry env).elim (fail e >>= fun _ => pure none) fun info =>
        pure (if spanOf info = name.span then some info else none))
    (hspan : ∀ info ∈ entry env, env.declaredSpan? name.name = some (spanOf info)) :
    Runs find c s fun found t => (Steps c .visiting s t ∧ Live c t {}) ∧
      (found = none → t.fatal = none → p.owns name = false) ∧
      ∀ info ∈ found, p.owns name = true ∧ entry env = some info ∧ spanOf info = name.span := by
  obtain ⟨found, t, hrun, hkept⟩ := hquiet c s {} hl
  refine ⟨found, t, hrun, hkept, ?_⟩
  rw [hfind] at hrun
  obtain ⟨env', u, hread, hrest⟩ := bind_eq_ok hrun
  obtain ⟨rfl, hown'⟩ := environment_eq_ok hread
  obtain rfl := Option.some.inj (hown.symm.trans hown')
  cases hentry : entry env with
  | none =>
    rw [hentry] at hrest
    obtain ⟨⟨⟩, v, hfail, hpure⟩ := bind_eq_ok hrest
    cases hfail
    cases hpure
    simp
  | some info =>
    have howns := owns_iff henv (hspan info hentry)
    rw [hentry] at hrest
    cases hrest
    by_cases hsame : spanOf info = name.span
    · simp [hsame, howns.2 hsame]
    · simpa [hsame] using fun _ => mt howns.1 hsame

theorem ownClass?_eq (name : Ident) : ownClass? name = environment >>= fun env =>
    (env.classes.get? name.name).elim
      (fail (.unregisteredContainer name.name "new") >>= fun _ => pure none)
      fun info => pure (if info.span = name.span then some info else none) := by
  unfold ownClass?
  congr 1
  funext env
  cases env.classes.get? name.name <;> rfl

theorem ownEntity?_eq (name : Ident) : ownEntity? name = environment >>= fun env =>
    (env.entities.get? name.name).elim
      (fail (.unregisteredContainer name.name "spawn") >>= fun _ => pure none)
      fun info => pure (if info.span = name.span then some info else none) := by
  unfold ownEntity?
  congr 1
  funext env
  cases env.entities.get? name.name <;> rfl

/-- A class is found with what it registered. -/
theorem runs_ownClass? (hl : Live c s {}) (hreg : HasDeclared c p s) (hp : p.Distinct)
    {decl : ClassDecl} (hdecl : Stmt.classDecl decl ∈ p) :
    Runs (ownClass? decl.name) c s fun found t => (Steps c .visiting s t ∧ Live c t {}) ∧
      (found = none → t.fatal = none → p.owns decl.name = false) ∧
      ∀ info ∈ found, p.owns decl.name = true ∧ info.From decl ∧
        info.constructor.isSome = decl.constructor.isSome := by
  obtain ⟨env, hown, henv⟩ := hreg
  refine (runs_own? (·.classes.get? decl.name.name) (·.span) hl hown henv (quiet_ownClass? _)
    (ownClass?_eq _) fun info hinfo => Environment.declaredSpan?_of_class hinfo).mono ?_
  rintro found t ⟨hkept, hnone, hsome⟩
  refine ⟨hkept, hnone, fun info hinfo => ?_⟩
  obtain ⟨howns, hentry, hspan⟩ := hsome info hinfo
  refine ⟨howns, ?_, ?_⟩
  · obtain ⟨other, hother, hname, hfrom⟩ := henv.classes _ _ hentry
    obtain rfl : other = decl := hp.classes hother hdecl (by rw [hname, hspan])
    exact hfrom
  · obtain ⟨other, hother, hname, hconstructor⟩ := henv.constructors decl hdecl info hentry hspan
    obtain rfl : other = decl := hp.classes hother hdecl hname
    exact hconstructor

/-- An entity is found with what it registered. -/
theorem runs_ownEntity? (hl : Live c s {}) (hreg : HasDeclared c p s) (hp : p.Distinct)
    {decl : EntityDecl} (hdecl : Stmt.entityDecl decl ∈ p) :
    Runs (ownEntity? decl.name) c s fun found t => (Steps c .visiting s t ∧ Live c t {}) ∧
      (found = none → t.fatal = none → p.owns decl.name = false) ∧
      ∀ info ∈ found, p.owns decl.name = true ∧ info.From decl := by
  obtain ⟨env, hown, henv⟩ := hreg
  refine (runs_own? (·.entities.get? decl.name.name) (·.span) hl hown henv (quiet_ownEntity? _)
    (ownEntity?_eq _) fun info hinfo => Environment.declaredSpan?_of_entity henv.toFrom hinfo).mono ?_
  rintro found t ⟨hkept, hnone, hsome⟩
  refine ⟨hkept, hnone, fun info hinfo => ?_⟩
  obtain ⟨howns, hentry, hspan⟩ := hsome info hinfo
  obtain ⟨other, hother, hname, hfrom⟩ := henv.entities _ _ hentry
  obtain rfl : other = decl := hp.entities hother hdecl (by rw [hname, hspan])
  exact ⟨howns, hfrom⟩

/-- A statement at the root finishes the forms that the walk reaches in it. -/
theorem finishes_rootStmt (hl : Live c s {}) (hreg : HasDeclared c p s) (hp : p.Distinct)
    {st : Stmt} (hst : st ∈ p) : Runs (stmt st) c s fun _ t =>
      Finishes c s {} (p.rootForms s.session.config.prune st) t := by
  have hroot (what : String) (span : Span) : Runs (atRoot what span) c s fun isRoot t =>
      (Steps c .visiting s t ∧ Live c t {}) ∧ isRoot = true ∧ t = s := by
    obtain ⟨isRoot, t, hrun, hkept, hisRoot⟩ := runs_atRoot .visiting hl what span
    exact ⟨isRoot, t, hrun, hkept, atRoot_eq_ok hl hrun⟩
  cases hregistered : st.isRegistered with
  | false =>
    have hunregistered : Unregistered st s.session.config.prune {} := fun h => by
      rw [hregistered] at h
      cases h
    have hfinishes := reports_stmt st c s {} hl hunregistered
    cases st with
    | classDecl | entityDecl => cases hregistered
    | _ => exact hfinishes
  | true =>
    cases st with
    | function decl =>
      have hsignature := runs_rootSignature hl hreg hp hst
      obtain ⟨name, generics, params, returns, stmts, isPub, span⟩ := decl
      refine Runs.finishes_bind hl hsignature fun signature t hlength hconfig hl' => ?_
      rw [← hconfig]
      exact (reports_inFunction hlength params span
        (reports_body (reports_stmts stmts))).bind_pure c t {} hl' trivial
    | classDecl decl =>
      have hown := runs_ownClass? hl hreg hp hst
      have hclass {info : ClassInfo} (hfrom : info.From decl)
          (hsome : info.constructor.isSome = decl.constructor.isSome) :=
        reports_container (.classBody info.ty)
          (reports_classBody hfrom hsome (hp.classMethods decl hst))
      obtain ⟨name, isPub, fields, methods, constructor, span⟩ := decl
      refine Runs.finishes_bind hl (hroot _ _) fun isRoot t ht _ _ => ?_
      obtain ⟨rfl, rfl⟩ := ht
      refine Runs.finishes_bind hl hown fun found t hfound hconfig hl' => ?_
      cases found with
      | none =>
        refine .pure ⟨.refl, ⟨{}, .refl {}, hl'⟩, fun hfatal => ?_⟩
        simp [Program.rootForms, hfound.1 rfl hfatal]
      | some info =>
        obtain ⟨howns, hfrom, hsome⟩ := hfound.2 info rfl
        rw [← hconfig]
        simp only [Program.rootForms, howns, if_true]
        exact (hclass hfrom hsome).bind_pure c t {} hl' trivial
    | entityDecl decl =>
      have hown := runs_ownEntity? hl hreg hp hst
      have hentity {info : EntityInfo} (hfrom : info.From decl) :=
        reports_container (.entityBody info.ty)
          (reports_entityBody hfrom (hp.entityMethods decl hst))
      obtain ⟨name, isPub, fields, methods, functions, span⟩ := decl
      refine Runs.finishes_bind hl (hroot _ _) fun isRoot t ht _ _ => ?_
      obtain ⟨rfl, rfl⟩ := ht
      refine Runs.finishes_bind hl hown fun found t hfound hconfig hl' => ?_
      cases found with
      | none =>
        refine .pure ⟨.refl, ⟨{}, .refl {}, hl'⟩, fun hfatal => ?_⟩
        simp [Program.rootForms, hfound.1 rfl hfatal]
      | some info =>
        obtain ⟨howns, hfrom⟩ := hfound.2 info rfl
        rw [← hconfig]
        simp only [Program.rootForms, howns, if_true]
        exact (hentity hfrom).bind_pure c t {} hl' trivial
    | _ => cases hregistered

/-- The statements of a program one after the other, by induction. The root scope stays as it is,
for nothing is permitted there. -/
theorem finishes_eachStmt (hl : Live c s {}) (hreg : HasDeclared c p s) (hp : p.Distinct)
    {stmts out : List Stmt} (hsub : ∀ st ∈ stmts, st ∈ p)
    (hrun : eachStmt stmts c s = .ok (out, s')) :
    Finishes c s {} (stmts.flatMap (p.rootForms s.session.config.prune)) s' := by
  induction stmts generalizing s out with
  | nil =>
    cases hrun
    exact .of_steps .refl (.refl {}) hl
  | cons first rest ih =>
    rw [List.forall_mem_cons] at hsub
    have hstmt : Leaves .checking (stmt first) (first.leaves ·) := leaves_stmt first
    have hclear : Quiet .visiting clearNarrowings := quiet_clearNarrowings
    obtain ⟨first', t, hfirst, hrest⟩ := bind_eq_ok hrun
    obtain ⟨⟨⟩, u, hclear', hrest⟩ := bind_eq_ok hrest
    obtain ⟨out', v, hothers, hpure⟩ := bind_eq_ok hrest
    cases hpure
    obtain ⟨-, x, hx, hl'⟩ := (hstmt c s {} hl trivial (.inl rfl)).apply hfirst
    obtain rfl := hx.silent (Stmt.leaves_nothing first)
    rw [ScopeStack.addExits_empty] at hl'
    obtain ⟨hsteps, hlu⟩ := (hclear c t _ hl').apply hclear'
    have hfinished := (finishes_rootStmt hl hreg hp hsub.1).apply hfirst
    have hcleared : Finishes c t {} [] u := .of_steps hsteps (.refl {}) hlu
    have hbefore := hfinished.trans hcleared (.refl {})
    have hothers' := ih hlu (hreg.steps hl hbefore.steps) hsub.2 hothers
    rw [(Steps.frames hl hbefore.steps).1.config] at hothers'
    have hall := hbefore.trans hothers' (.refl {})
    rwa [List.append_nil, ← List.flatMap_cons] at hall

/-- The check of a program reports what its forms lack. -/
theorem missing_program (hl : Live c s {}) (hreg : HasDeclared c p s) (hp : p.Distinct)
    {out : Program} (hrun : Check.program p c s = .ok (out, s')) (hclean : s'.fatal = none) :
    s'.missing = s.missing ++ Form.missing (p.forms s.session.config.prune) := by
  have hbody {stmts out : List Stmt} (hsub : ∀ st ∈ stmts, st ∈ p)
      (hrun : body stmts false c s = .ok (out, s')) : s'.missing = s.missing ++
        Form.missing (stmts.flatMap (p.rootForms s.session.config.prune)) :=
    (finishes_eachStmt hl hreg hp hsub ((body_root hl stmts).symm.trans hrun)).missing hclean
  unfold Check.program at hrun
  split at hrun
  · next decl rest =>
    obtain ⟨out', t, hrest, hpure⟩ := bind_eq_ok hrun
    cases hpure
    have hmissing := hbody (fun st hst => List.mem_cons_of_mem (.env decl) hst) hrest
    exact hmissing
  · exact hbody (fun _ hst => hst) hrun

end Root

end Check

/-! ## Builds -/

open Check

/-- The alerts about missing exits. -/
def Diagnostics.missing (d : Diagnostics) : List Alert := d.alerts.filter (·.kind.isMissingExit)

@[simp] theorem Diagnostics.missing_append (d e : Diagnostics) :
    (d.append e).missing = d.missing ++ e.missing := by
  simp [missing, append]

/-- An `env` declaration misses no exit. -/
theorem missing_header (s : Session) (path : String) (p : Program) :
    (s.header path p).2.2.missing = [] := by
  unfold Session.header
  split
  · cases EnvKind.ofName? _ <;> cases s.registry.lookup? _ <;> rfl
  · rfl

/-- A walk reports what the forms of its program lack. -/
theorem FinishedWalk.missing {config : Config} {id : EnvId} {p out : Program} {c : Context}
    {s t : State} (h : FinishedWalk config id p out c s t) (hp : p.Distinct) :
    t.alerts.missing = Form.missing (p.forms config.prune) := by
  obtain ⟨counts, u, hdeclare, hcheck⟩ := bind_eq_ok h.run
  obtain ⟨s₀, s₁, s₂, s₃, himport, hclaim, hresolve, hfill, hbind, hl⟩ :=
    (runs_declare h.live p).apply hdeclare
  obtain ⟨env, hnew, hown⟩ := h.isNew
  have hstart : Environment.Registers { env with state := .walking } p [] [] [] ∧
      env.scopes.RootFrom p := by
    obtain ⟨hregisters, hroot⟩ := hnew.registers p
    exact ⟨⟨⟨hregisters.classes, hregisters.entities, hregisters.exclusive⟩, hregisters.types,
      hregisters.constructors, hregisters.functions⟩, hroot⟩
  have hreg : HasDeclared c p u := Declare.registers_declare h.live hown hstart hdeclare
  have hbefore : u.missing = [] := by
    rw [Steps.missing_eq rfl hbind, Steps.missing_eq rfl hfill, Steps.missing_eq rfl hresolve,
      Steps.missing_eq rfl hclaim, Steps.missing_eq rfl himport, State.missing, h.alerts]
    rfl
  have hconfig : u.session.config = config := by
    have hroute := (((himport.route.trans hclaim.route).trans hresolve.route).trans
      hfill.route).trans hbind.route
    rw [← h.settings]
    exact (Route.frames h.live hroute).1.config
  have hall := missing_program hl hreg hp hcheck h.clean
  rw [hbefore, List.nil_append, hconfig] at hall
  exact hall

/-- Which missing exits a build reports. For every file they are, in order, those of the functions
and match expressions that the walk reaches: a function with return types that does not return on
every path, and a match expression with an `else` arm of which some arm can be passed. -/
theorem analyze_reports_missing_exits {config : Config} {files : List (String × Program)}
    {out : BuildOutput} (h : analyze config files = .ok out) {i : Nat} {path : String} {p : Program}
    (hfile : files[i]? = some (path, p)) (hp : p.Distinct) :
    ∃ alerts, out.alerts[i]? = some alerts ∧
      alerts.missing = Form.missing (p.forms config.prune) := by
  obtain ⟨-, -, -, hwalked⟩ := finished_of_analyze h
  obtain ⟨walked, c, s, t, env, hwalk, -, -, -, halerts⟩ := hwalked i path p hfile
  refine ⟨_, halerts, ?_⟩
  rw [Diagnostics.missing_append, missing_header, List.nil_append, hwalk.missing hp]

/-- A function that must return a number, with the given body. -/
def numberFunction (name : String) (body : List Stmt) : FunctionDecl :=
  ⟨⟨name, .synthetic⟩, [], [],
    [⟨none, ⟨"number", .synthetic⟩, [], [], [], false, .synthetic⟩], body, false, .synthetic⟩

/-- Programs with a function that must return a number and has no body: after a `return`, in a class
inside a function, in a class without its name, in a pattern of an `else` arm, and at the position of
another function. -/
def silentPrograms : List Program :=
  let env : Stmt := .level "Main"
  let broken := numberFunction "broken" []
  let class_ (methods : List FunctionDecl) (span : Span) : Stmt :=
    .classDecl ⟨⟨"Thing", span⟩, false, [], methods, some ⟨[], [], [], .synthetic⟩, .synthetic⟩
  let function (name : String) (body : List Stmt) : Stmt :=
    .function ⟨⟨name, .synthetic⟩, [], [], [], body, false, .synthetic⟩
  [[env, function "f" [.returning [] .synthetic, .function broken]],
    [env, function "f" [class_ [broken] .synthetic]],
    [env, class_ [] .synthetic, class_ [broken] ⟨3, 7, 5⟩],
    [env, .matching (.literal ⟨.number, "1", .synthetic⟩)
      [⟨[.function [] broken.returns [] .synthetic], true, [], .synthetic⟩] .synthetic],
    [env, function "broken" [], .function broken]]

/-- The function has return types and does not return, and none of the programs that hold it
reports that. -/
theorem analyze_skips_functions :
    (Form.function (numberFunction "broken" []).returns [] .synthetic).lacksExit = true ∧
      ∀ p ∈ silentPrograms, ∃ out alerts, analyze {} [("main.hyb", p)] = .ok out ∧
        out.alerts[0]? = some alerts ∧ alerts.missing = [] := by
  have hruns : (silentPrograms.all fun p => (analyze {} [("main.hyb", p)]).toOption.any
      fun out => out.alerts[0]?.any (·.missing.isEmpty)) = true := by decide +kernel
  refine ⟨rfl, fun p hp => ?_⟩
  have hrun := List.all_eq_true.1 hruns p hp
  cases hout : analyze {} [("main.hyb", p)] with
  | error e =>
    rw [hout] at hrun
    cases hrun
  | ok out =>
    rw [hout] at hrun
    change out.alerts[0]?.any _ = true at hrun
    obtain ⟨alerts, halerts, hempty⟩ := (Option.any_eq_true _ _).1 hrun
    exact ⟨out, alerts, rfl, halerts, List.isEmpty_iff.1 hempty⟩

/-- A function that returns only where a loop runs, one that returns on every path, and a match
expression of which an arm has no `yield`. -/
def missingExitsProgram : Program :=
  let one : Expr := .literal ⟨.number, "1", .synthetic⟩
  [.level "Main",
    .function (numberFunction "f"
      [.whileLoop (.literal ⟨.bool, "true", .synthetic⟩) [.returning [one] .synthetic] .synthetic]),
    .function (numberFunction "g" [.returning [one] .synthetic]),
    .variable ⟨[⟨"x", .synthetic⟩], none, [.matching one
      [⟨[one], false, [.yielding [one] .synthetic], .synthetic⟩, ⟨[], true, [], .synthetic⟩]
      1 .synthetic], false, false, .synthetic⟩]

theorem distinct_missingExitsProgram : missingExitsProgram.Distinct := by
  refine ⟨fun a ha b hb hname => ?_, fun a ha => ?_, fun a ha => ?_, fun a ha => ?_,
    fun a ha => ?_⟩
  · simp only [missingExitsProgram, Stmt.level, Set.mem_ofPred_eq, List.mem_cons, Stmt.function.injEq,
      reduceCtorEq, List.not_mem_nil, or_false, false_or] at ha hb
    rcases ha with rfl | rfl <;> rcases hb with rfl | rfl
    · rfl
    · exact absurd hname (by decide)
    · exact absurd hname (by decide)
    · rfl
  all_goals simp [missingExitsProgram, Stmt.level] at ha

/-- The loop and the arm without an exit are reported. -/
theorem analyze_reports_missing_exits_loop : ∃ out alerts,
    analyze {} [("main.hyb", missingExitsProgram)] = .ok out ∧ out.alerts[0]? = some alerts ∧
      alerts.missing.map (·.kind.message) =
        [(AlertKind.notAllCodePathsExit "return").message,
          (AlertKind.notAllCodePathsExit "yield").message] := by
  have hok : (analyze {} [("main.hyb", missingExitsProgram)]).isOk = true := by decide +kernel
  cases hout : analyze {} [("main.hyb", missingExitsProgram)] with
  | error e =>
    rw [hout] at hok
    cases hok
  | ok out =>
    obtain ⟨alerts, halerts, hmissing⟩ :=
      analyze_reports_missing_exits hout (i := 0) rfl distinct_missingExitsProgram
    exact ⟨out, alerts, rfl, halerts, by rw [hmissing]; rfl⟩

end HybroidSema
