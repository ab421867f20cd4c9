import HybroidSema.Proofs.AliasOrder
import HybroidSema.Proofs.FirstClaims

/-!
# Alerts are written and never read

While declarations are registered, alerts are added and none is looked at. So a run is the same, and
adds the same alerts, whatever was reported before it. Once the names are claimed, none of the alerts
that are added is about a second declaration of a type.

* `State.withAlerts`: the state with other alerts.
* `Oblivious`: a check that does not read the alerts.
* `oblivious_link` and the lemmas after it: the steps of the registration after the claims.
* `Oblivious.eq_withAlerts`: two runs that differ in nothing but earlier alerts.
-/

namespace HybroidSema

namespace Check

variable {α β : Type} {c : Context} {s t : State} {a : α} {m : Check α}

/-- The state with other alerts. -/
def State.withAlerts (s : State) (alerts : List Alert) : State := { s with alerts := ⟨alerts⟩ }

/-- The check succeeds alike whatever was reported before, and adds the same alerts, none of them
about a second declaration of a type. -/
def Oblivious (m : Check α) : Prop :=
  ∀ c s a t, m c s = .ok (a, t) → ∃ added : List Alert,
    (∀ x ∈ added, x.kind.isTypeRedeclaration = false) ∧
      ∀ alerts, m c (s.withAlerts alerts) = .ok (a, t.withAlerts (alerts ++ added))

namespace Oblivious

/-! ## Building blocks -/

theorem pure (a : α) : Oblivious (pure a) := by
  intro c s _ _ h
  cases h
  exact ⟨[], by simp, fun alerts => by rw [List.append_nil]; rfl⟩

theorem bind {k : α → Check β} (hm : Oblivious m) (hk : ∀ a, Oblivious (k a)) :
    Oblivious (m >>= k) := by
  intro c s b u h
  obtain ⟨a, t, hrun, hrest⟩ := bind_eq_ok h
  obtain ⟨first, hfirst, hm⟩ := hm c s a t hrun
  obtain ⟨second, hsecond, hk⟩ := hk a c t b u hrest
  refine ⟨first ++ second, List.forall_mem_append.2 ⟨hfirst, hsecond⟩, fun alerts => ?_⟩
  rw [bind_apply_ok (hm alerts), hk, List.append_assoc]

theorem alert {x : Alert} (hx : x.kind.isTypeRedeclaration = false) : Oblivious (alert x) := by
  intro c s _ _ h
  cases h
  exact ⟨[x], by simpa using hx, fun alerts => rfl⟩

theorem report {kind : AlertKind} (hkind : kind.isTypeRedeclaration = false) (span : Span) :
    Oblivious (report kind span) := alert hkind

/-- A change of the state that has nothing to do with alerts. -/
theorem modify {f : State → State} (hf : ∀ s alerts, f (s.withAlerts alerts) = (f s).withAlerts alerts) :
    Oblivious (modify f : Check Unit) := by
  intro c s _ _ h
  cases h
  refine ⟨[], by simp, fun alerts => ?_⟩
  rw [List.append_nil, ← hf]
  rfl

theorem lift (x : Except CompileError α) : Oblivious (liftM x : Check α) := by
  intro c s a t h
  cases x with
  | error => cases h
  | ok => exact Oblivious.pure _ c s a t h

/-- A report that is made under a condition, before the rest. -/
theorem guard {b : Prop} [Decidable b] {m : Check PUnit} {k : PUnit → Check β} (hm : Oblivious m)
    (hk : ∀ a, Oblivious (k a)) : Oblivious (if b then m >>= k else k ⟨⟩) := by
  split
  · exact hm.bind hk
  · exact hk _

theorem forM {ι : Type} {step : ι → Check Unit} (h : ∀ item, Oblivious (step item))
    (items : List ι) : Oblivious (items.forM step) := by
  induction items with
  | nil => exact .pure _
  | cons item rest ih => exact (h item).bind fun _ => ih

/-- Two runs that differ in nothing but earlier alerts end alike. -/
theorem eq_withAlerts (hm : Oblivious m) (hrun : m c s = .ok (a, t)) {alerts : List Alert} {a' : α}
    {t' : State} (hrun' : m c (s.withAlerts alerts) = .ok (a', t')) :
    ∃ alerts', t' = t.withAlerts alerts' := by
  obtain ⟨added, -, hall⟩ := hm c s a t hrun
  exact ⟨alerts ++ added, (Prod.mk.inj (Except.ok.inj (hrun'.symm.trans (hall alerts)))).2⟩

/-- No second declaration of a type is reported. -/
theorem filter_alerts_eq (hm : Oblivious m) (hrun : m c s = .ok (a, t)) :
    t.alerts.alerts.filter (·.kind.isTypeRedeclaration) =
      s.alerts.alerts.filter (·.kind.isTypeRedeclaration) := by
  obtain ⟨added, hplain, hall⟩ := hm c s a t hrun
  have hself := (Prod.mk.inj (Except.ok.inj (hrun.symm.trans (hall s.alerts.alerts)))).2
  have hadded : t.alerts.alerts = s.alerts.alerts ++ added := congrArg (·.alerts.alerts) hself
  have hnone : added.filter (·.kind.isTypeRedeclaration) = [] :=
    List.filter_eq_nil_iff.2 fun x hx => by simp [hplain x hx]
  rw [hadded, List.filter_append, hnone, List.append_nil]

end Oblivious

/-! ## The session and the own environment -/

theorem oblivious_registry : Oblivious registry := by
  intro c s _ _ h
  cases h
  exact ⟨[], by simp, fun alerts => by rw [List.append_nil]; rfl⟩

theorem oblivious_ownId : Oblivious ownId := by
  intro c s _ _ h
  cases h
  exact ⟨[], by simp, fun alerts => by rw [List.append_nil]; rfl⟩

theorem oblivious_environment : Oblivious environment :=
  oblivious_ownId.bind fun _ => oblivious_registry.bind fun _ => .lift _

theorem oblivious_scopes : Oblivious scopes := oblivious_environment.bind fun _ => .pure _

theorem oblivious_modifyRegistry (f : Registry → Registry) : Oblivious (modifyRegistry f) :=
  .modify fun _ _ => rfl

theorem oblivious_modifyEnvironment (f : Environment → Environment) :
    Oblivious (modifyEnvironment f) :=
  oblivious_ownId.bind fun _ => oblivious_environment.bind fun _ => oblivious_modifyRegistry _

theorem oblivious_modifyScopes (f : ScopeStack → ScopeStack) : Oblivious (modifyScopes f) :=
  oblivious_modifyEnvironment _

theorem oblivious_closeScope : Oblivious closeScope := by
  refine oblivious_scopes.bind fun stack => ?_
  split
  · exact (oblivious_modifyScopes _).bind fun _ => .pure _
  · exact .pure _

theorem oblivious_inScope (enter : ScopeStack → ScopeStack) (hm : Oblivious m) :
    Oblivious (inScope enter m) :=
  (oblivious_modifyScopes _).bind fun _ => hm.bind fun _ => oblivious_closeScope.bind fun _ =>
    .pure _

/-! ## Linking -/

theorem walkOther_eq {target : EnvId} {error : Option CompileError} {session : Session}
    (h : c.walk target s.session = .ok (error, session)) :
    walkOther target c s = .ok ((), { s with session := session, fatal := s.fatal <|> error }) := by
  refine (bind_apply_ok rfl).trans <| (bind_apply_ok rfl).trans <|
    (bind_apply_ok (congrArg (· >>= fun a => .ok (a, s)) h)).trans <| (bind_apply_ok rfl).trans ?_
  cases error with
  | none => simp; rfl
  | some error => rfl

/-- Another environment is walked with the session alone. -/
theorem oblivious_walkOther (target : EnvId) : Oblivious (walkOther target) := by
  intro c s a t h
  cases hwalk : c.walk target s.session with
  | error e =>
    have herror : walkOther target c s = .error e := by
      have hlift : (liftM (c.walk target s.session) : Check _) c s = .error e := by
        rw [hwalk]
        rfl
      refine (bind_apply_ok rfl).trans <| (bind_apply_ok rfl).trans ?_
      rw [bind_apply, hlift]
      rfl
    rw [herror] at h
    cases h
  | ok result =>
    obtain ⟨error, session⟩ := result
    rw [walkOther_eq hwalk] at h
    cases h
    refine ⟨[], by simp, fun alerts => ?_⟩
    rw [List.append_nil]
    exact walkOther_eq (s := s.withAlerts alerts) hwalk

theorem oblivious_isStarted (target : EnvId) : Oblivious (isStarted target) := by
  refine oblivious_registry.bind fun registry => ?_
  split <;> exact .pure _

/-- No access that is refused is a second declaration. -/
theorem isTypeRedeclaration_accessError? {r : Registry} {source target : EnvId} {kind : AlertKind}
    (h : r.accessError? source target = some kind) : kind.isTypeRedeclaration = false := by
  unfold Registry.accessError? at h
  split at h
  · cases h
  · split at h
    · split at h <;> cases h
      rfl
    · split at h
      · cases h
      · split at h <;> cases h
        rfl

theorem oblivious_require (target : EnvId) (span : Span) : Oblivious (require target span) := by
  refine oblivious_registry.bind fun registry => oblivious_ownId.bind fun own => ?_
  split
  · next kind hkind =>
    exact (Oblivious.report (isTypeRedeclaration_accessError? hkind) _).bind fun _ => .pure _
  · exact (oblivious_modifyEnvironment _).bind fun _ => .pure _

theorem oblivious_ensureWalked (target : EnvId) (span : Span) :
    Oblivious (ensureWalked target span) := by
  refine oblivious_ownId.bind fun own => ?_
  split
  · exact .pure _
  · refine oblivious_registry.bind fun registry => ?_
    split
    · split
      · exact (oblivious_modifyRegistry _).bind fun _ => Oblivious.report rfl _
      · exact .pure _
    · refine (oblivious_isStarted _).bind fun started => ?_
      split
      · exact oblivious_walkOther _
      · exact .pure _

theorem oblivious_link (target : EnvId) (span : Span) : Oblivious (link target span) := by
  refine oblivious_ownId.bind fun own => ?_
  split
  · exact .pure _
  · refine (oblivious_require _ _).bind fun allowed => ?_
    split
    · exact (oblivious_ensureWalked _ _).bind fun _ => .pure _
    · exact .pure _

theorem oblivious_useTarget? (stmt : UseStmt) : Oblivious (useTarget? stmt) := by
  refine oblivious_registry.bind fun registry => ?_
  split
  · exact oblivious_ownId.bind fun _ => .pure _
  · exact (Oblivious.report rfl _).bind fun _ => .pure _

theorem oblivious_importEnvironment (stmt : UseStmt) : Oblivious (importEnvironment stmt) := by
  refine (oblivious_useTarget? _).bind fun target? => ?_
  split
  · refine (oblivious_require _ _).bind fun allowed => ?_
    split
    · exact oblivious_modifyEnvironment _
    · exact .pure _
  · exact .pure _

theorem oblivious_walkImport (stmt : UseStmt) : Oblivious (walkImport stmt) := by
  refine oblivious_registry.bind fun registry => ?_
  split
  · refine oblivious_environment.bind fun env => ?_
    split
    · exact oblivious_ensureWalked _ _
    · exact .pure _
  · exact .pure _

/-! ## Written types -/

theorem oblivious_declaredIn? (target : EnvId) (name : String) :
    Oblivious (declaredIn? target name) := by
  unfold declaredIn?
  split
  · exact .pure _
  · exact oblivious_registry.bind fun _ => .pure _

theorem oblivious_qualifiedType (env name : Ident) : Oblivious (qualifiedType env name) := by
  refine oblivious_registry.bind fun registry => ?_
  split
  · exact (Oblivious.report rfl _).bind fun _ => .pure _
  · refine (oblivious_link _ _).bind fun linked => ?_
    split
    · refine (oblivious_declaredIn? _ _).bind fun declared => ?_
      split
      · exact oblivious_ownId.bind fun _ => .guard (.report rfl _) fun _ => .pure _
      · exact (Oblivious.report rfl _).bind fun _ => .pure _
    · exact .pure _

theorem oblivious_importedType? (name : Ident) (imports : List EnvId)
    (found : Option (EnvId × Ty)) : Oblivious (importedType? name imports found) := by
  induction imports generalizing found with
  | nil => exact .pure _
  | cons target rest ih =>
    unfold importedType?
    refine (oblivious_isStarted _).bind fun started => .guard (oblivious_ensureWalked _ _) fun _ =>
      (oblivious_declaredIn? _ _).bind fun declared => ?_
    dsimp only
    split
    · exact ih _
    · exact ih _
    · exact oblivious_registry.bind fun _ => (Oblivious.report rfl _).bind fun _ => .pure _

theorem oblivious_namedType (name : Ident) : Oblivious (namedType name) := by
  refine oblivious_scopes.bind fun stack => ?_
  split
  · exact .pure _
  · refine oblivious_environment.bind fun env => ?_
    split
    · exact .pure _
    · split
      · exact .pure _
      · refine (oblivious_importedType? _ _ _).bind fun found => ?_
        split
        · exact .pure _
        · exact (Oblivious.report rfl _).bind fun _ => .pure _

theorem oblivious_resolveTypes_of {written : List TypeExpr}
    (h : ∀ ty ∈ written, Oblivious (resolveType ty)) : Oblivious (resolveTypes written) := by
  induction written with
  | nil => exact .pure _
  | cons first rest ih =>
    exact (h first (by simp)).bind fun _ => (ih fun ty hty => h ty (by simp [hty])).bind fun _ =>
      .pure _

mutual
theorem oblivious_resolveType (written : TypeExpr) : Oblivious (resolveType written) :=
  match written with
  | ⟨env, name, wrapped, params, returns, isVariadic, span⟩ => by
    have hwrapped := oblivious_resolveType_of_mem wrapped
    have hparams := oblivious_resolveTypes_of (oblivious_resolveType_of_mem params)
    have hreturns := oblivious_resolveTypes_of (oblivious_resolveType_of_mem returns)
    unfold resolveType
    dsimp only
    split
    · exact (oblivious_qualifiedType _ _).bind fun _ => .pure _
    · split
      · exact (hwrapped _ (by simp)).bind fun _ => .pure _
      · exact (Oblivious.report rfl _).bind fun _ => .pure _
    · refine .guard (.report rfl _) fun _ => ?_
      split
      · exact .pure _
      · split
        · exact hparams.bind fun _ => hreturns.bind fun _ => .pure _
        · exact (oblivious_namedType _).bind fun _ => .pure _
  termination_by structural written

theorem oblivious_resolveType_of_mem (written : List TypeExpr) :
    ∀ ty ∈ written, Oblivious (resolveType ty) :=
  match written with
  | [] => by simp
  | first :: rest => by
    have hfirst := oblivious_resolveType first
    have hrest := oblivious_resolveType_of_mem rest
    exact List.forall_mem_cons.2 ⟨hfirst, hrest⟩
  termination_by structural written
end

theorem oblivious_resolveTypes (written : List TypeExpr) : Oblivious (resolveTypes written) :=
  oblivious_resolveTypes_of (oblivious_resolveType_of_mem written)

theorem oblivious_resolveType? (written : Option TypeExpr) : Oblivious (resolveType? written) := by
  unfold resolveType?
  split
  · exact (oblivious_resolveType _).bind fun _ => .pure _
  · exact .pure _

theorem oblivious_distinctGenerics (generics : List Ident) (seen : List String) :
    Oblivious (distinctGenerics generics seen) := by
  induction generics generalizing seen with
  | nil => exact .pure _
  | cons generic rest ih =>
    unfold distinctGenerics
    split
    · exact (Oblivious.report rfl _).bind fun _ => ih _
    · exact ih _

theorem oblivious_resolveSignature (generics : List Ident) (params : List Param)
    (returns : List TypeExpr) : Oblivious (resolveSignature generics params returns) :=
  (oblivious_distinctGenerics _ _).bind fun _ => (oblivious_inScope _ <|
    (oblivious_resolveTypes _).bind fun _ => (oblivious_resolveTypes _).bind fun _ => .pure _).bind
      fun _ => .pure _

end Check

namespace Declare

open Check

/-! ## Aliases -/

theorem oblivious_ownsName (name : Ident) : Oblivious (ownsName name) :=
  oblivious_environment.bind fun _ => .pure _

theorem oblivious_setAlias (name : String) (ty : Ty) : Oblivious (setAlias name ty) :=
  oblivious_modifyEnvironment _

theorem oblivious_performAll (done : List AliasStep) : Oblivious (performAll done) := by
  induction done with
  | nil => exact .pure _
  | cons step earlier ih =>
    refine ih.bind fun _ => ?_
    cases step with
    | cycle decl => exact Oblivious.report rfl _
    | resolve decl => exact (oblivious_resolveType _).bind fun _ => oblivious_setAlias _ _

/-! ## Members -/

theorem oblivious_registerNames (decl : VariableDecl) (declared : Option Ty) (index : Nat)
    (names : List Ident) (members : Members) :
    Oblivious (registerNames decl declared index names members) := by
  induction names generalizing index members with
  | nil => exact .pure _
  | cons name rest ih =>
    unfold registerNames
    dsimp only
    split
    · exact ih _ _
    · exact (Oblivious.alert rfl).bind fun _ => ih _ _

theorem oblivious_registerFields (decls : List VariableDecl) (members : Members) :
    Oblivious (registerFields decls members) := by
  induction decls generalizing members with
  | nil => exact .pure _
  | cons decl rest ih =>
    exact (oblivious_resolveType? _).bind fun _ => (oblivious_registerNames _ _ _ _ _).bind
      fun _ => ih _

theorem oblivious_registerMethods (decls : List FunctionDecl) (members : Members) :
    Oblivious (registerMethods decls members) := by
  induction decls generalizing members with
  | nil => exact .pure _
  | cons decl rest ih =>
    unfold registerMethods
    refine (oblivious_resolveSignature _ _ _).bind fun signature => ?_
    split
    · exact (ih _).bind fun _ => .pure _
    · exact (Oblivious.alert rfl).bind fun _ => ih _

theorem oblivious_registerConstructor (decl : ClassDecl) :
    Oblivious (registerConstructor decl) := by
  unfold registerConstructor
  split
  · exact (oblivious_resolveSignature _ _ _).bind fun _ => .pure _
  · exact (Oblivious.report rfl _).bind fun _ => .pure _

theorem oblivious_registerClass (decl : ClassDecl) : Oblivious (registerClass decl) := by
  refine (oblivious_ownsName _).bind fun owns => ?_
  split
  · exact (oblivious_registerFields _ _).bind fun _ => (oblivious_registerMethods _ _).bind
      fun _ => (oblivious_registerConstructor _).bind fun _ =>
        (oblivious_modifyEnvironment _).bind fun _ => .pure _
  · exact .pure _

theorem oblivious_lifecycleSignature (decl : LifecycleDecl) :
    Oblivious (lifecycleSignature decl) := by
  refine (oblivious_resolveSignature _ _ _).bind fun signature => ?_
  split
  · exact .guard (.report rfl _) fun _ => .guard (.report rfl _) fun _ => .pure _
  · exact .guard (.report rfl _) fun _ => .pure _

theorem oblivious_registerLifecycles (entity : Ident) (decls : List LifecycleDecl)
    (first : List Lifecycle) : Oblivious (registerLifecycles entity decls first) := by
  induction decls generalizing first with
  | nil => exact .pure _
  | cons decl rest ih =>
    unfold registerLifecycles
    split
    · exact (Oblivious.alert rfl).bind fun _ => ih _
    · exact (oblivious_lifecycleSignature _).bind fun _ => ih _

theorem oblivious_requireLifecycle (entity : Ident) (kind : LifecycleKind)
    (registered : List Lifecycle) : Oblivious (requireLifecycle entity kind registered) := by
  unfold requireLifecycle
  split
  · exact Oblivious.report rfl _
  · exact .pure _

theorem oblivious_registerEntity (decl : EntityDecl) : Oblivious (registerEntity decl) := by
  refine (oblivious_ownsName _).bind fun owns => ?_
  split
  · exact (oblivious_registerFields _ _).bind fun _ => (oblivious_registerMethods _ _).bind
      fun _ => (oblivious_registerLifecycles _ _ _).bind fun _ =>
        (oblivious_requireLifecycle _ _ _).bind fun _ =>
          (oblivious_requireLifecycle _ _ _).bind fun _ =>
            (oblivious_modifyEnvironment _).bind fun _ => .pure _
  · exact .pure _

/-! ## The steps of a registration -/

theorem oblivious_registerMembers (stmt : Stmt) : Oblivious (registerMembers stmt) := by
  cases stmt with
  | classDecl decl => exact oblivious_registerClass decl
  | entityDecl decl => exact oblivious_registerEntity decl
  | _ => exact .pure _

theorem oblivious_registerFunction (stmt : Stmt) : Oblivious (registerFunction stmt) := by
  cases stmt with
  | function decl =>
    refine (oblivious_resolveSignature _ _ _).bind fun signature => oblivious_scopes.bind
      fun stack => ?_
    split
    · exact (oblivious_modifyScopes _).bind fun _ => .pure _
    · next error _ =>
      have hreport : Oblivious (reportScopeError error decl.name.span "function") := by
        cases error <;> exact Oblivious.alert rfl
      exact hreport.bind fun _ => .pure _
  | _ => exact .pure _

theorem oblivious_countEach {step : Stmt → Check Nat} (h : ∀ stmt, Oblivious (step stmt))
    (p : Program) : Oblivious (countEach step p) := by
  induction p with
  | nil => exact .pure _
  | cons stmt rest ih => exact (h stmt).bind fun _ => ih.bind fun _ => .pure _

theorem oblivious_importAll (p : Program) : Oblivious (importAll p) :=
  .forM oblivious_importEnvironment _

theorem oblivious_walkImports (p : Program) : Oblivious (walkImports p) :=
  .forM oblivious_walkImport _

end Declare

end HybroidSema
