import HybroidSema.Check.Tree
import HybroidSema.Proofs.Step

/-!
# Checks that keep the scopes

Everything that is done at a node of the tree once its parts are checked runs from every live
state, in steps, and keeps the outline of the scopes. There is one lemma for each function, in the
order of the modules that define them, and none of them unfolds another function.
-/

namespace HybroidSema.Check

variable {α β : Type} {phase : Phase}

/-! ## Problems, and what is read -/

theorem quiet_alert (a : Alert) (h : phase.reports a.kind = true) :
    Quiet phase (alert a) :=
  .of_modify (fun _ s => .alert s a h) fun _ => rfl

theorem quiet_report (kind : AlertKind) (span : Span)
    (h : phase.reports kind = true) : Quiet phase (report kind span) :=
  quiet_alert _ h

theorem quiet_fail (container member : String) :
    Quiet phase (fail (.unregisteredContainer container member)) :=
  .of_modify (fun _ s => .fail s container member) fun _ => rfl

theorem quiet_get : Quiet phase (get : Check State) :=
  .of_reads fun _ _ _ _ => runs_get.mono fun _ _ h => h.2

theorem quiet_registry : Quiet phase registry :=
  .of_reads fun _ _ _ _ => runs_registry.mono fun _ _ h => h.2

theorem quiet_ownId : Quiet phase ownId :=
  .of_reads fun _ _ _ _ => runs_ownId.mono fun _ _ h => h.2

theorem quiet_environment : Quiet phase environment :=
  .of_reads fun _ _ _ h => (runs_environment h).mono fun _ _ h => h.1

theorem quiet_scopes : Quiet phase scopes :=
  .of_reads fun _ _ _ h => (runs_scopes h).mono fun _ _ h => h.1

theorem quiet_class? (ref : DeclRef) : Quiet phase (class? ref) :=
  quiet_registry.bind fun _ => .pure _

theorem quiet_entity? (ref : DeclRef) : Quiet phase (entity? ref) :=
  quiet_registry.bind fun _ => .pure _

theorem quiet_members? (ref : DeclRef) (kind : NamedKind) : Quiet phase (members? ref kind) :=
  quiet_registry.bind fun _ => .pure _

theorem quiet_enum? (ref : DeclRef) : Quiet phase (enum? ref) := by
  unfold enum?
  split
  · exact .pure _
  · exact quiet_registry.bind fun _ => .pure _

/-! ## Scopes and variables -/

/-- A variable is marked as read or assigned. -/
theorem quiet_modifyVariable {position : Nat} {name : String} {f : Variable → Variable}
    (hf : ∀ stack : ScopeStack, phase.KeepsRoot stack (stack.modifyVariable position name f)) :
    Quiet phase (modifyScopes (·.modifyVariable position name f)) := by
  intro c s o h
  refine (runs_modifyScopes phase h fun env _ ho => ⟨?_, ?_⟩).mono
    fun _ _ ⟨hs, hl, _⟩ => ⟨hs, hl⟩
  · exact (env.scopes.outline_modifyVariable position name f).trans ho
  · exact hf env.scopes

theorem quiet_reportScopeError (error : ScopeError) (span : Span) (what : String) :
    Quiet phase (reportScopeError error span what) := by
  unfold reportScopeError
  split
  · exact quiet_alert _ rfl
  · exact quiet_report _ _ rfl
  · exact quiet_report _ _ rfl

/-- Replacing the scopes by others of the same outline. -/
theorem runs_setScopes [phase.Binds] {c : Context} {s : State} {o stack stack' : ScopeStack} (h : Live c s o)
    (hown : ∃ env, s.own? c = some env ∧ env.scopes = stack) (ho : stack'.outline = o)
    (hroot : stack.KeepsRoot stack') :
    Runs (modifyScopes fun _ => stack') c s fun _ s' => Steps c phase s s' ∧ Live c s' o := by
  obtain ⟨own, hown, rfl⟩ := hown
  refine (runs_modifyScopes phase h fun env he _ => ⟨ho, ?_⟩).mono fun _ _ ⟨hs, hl, _⟩ => ⟨hs, hl⟩
  obtain rfl : own = env := Option.some.inj (hown.symm.trans he)
  exact Phase.Binds.keepsRoot hroot

theorem quiet_declare [phase.Binds] (binding : Variable) (what : String) :
    Quiet phase (declare binding what) := by
  refine .scopes_bind fun c s o stack h ho hown => ?_
  split
  · next scopes hd =>
    exact runs_setScopes h hown ((ScopeStack.outline_declare hd).trans ho)
      (ScopeStack.keepsRoot_declare hd)
  · exact quiet_reportScopeError _ _ _ c s o h

theorem quiet_clearNarrowings [phase.Collects] : Quiet phase clearNarrowings :=
  .of_modify (fun _ s => .narrow s [] Phase.Collects.narrows) fun _ => rfl

theorem quiet_takeNarrowings [phase.Collects] : Quiet phase takeNarrowings :=
  quiet_get.bind fun _ => quiet_clearNarrowings.bind fun _ => .pure _

/-! ## Value lists -/

theorem quiet_expectSingle (value : Value) (span : Span) :
    Quiet phase (expectSingle value span) := by
  unfold expectSingle
  split
  · exact .bind (quiet_report _ _ rfl) fun _ => .pure _
  · exact .pure _

theorem Quiet.single {m : Check (Expr × Value)} (h : Quiet phase m) : Quiet phase (single m) :=
  h.bind fun _ => (quiet_expectSingle _ _).bind fun _ => .pure _

theorem quiet_checkValueCount (expected : Nat) (values : List (Value × Span)) (span : Span)
    (context : String) : Quiet phase (checkValueCount expected values span context) := by
  unfold checkValueCount
  dsimp only
  split
  · exact .bind (quiet_report _ _ rfl) fun _ => .pure _
  · split
    · exact .bind (quiet_report _ _ rfl) fun _ => .pure _
    · exact .pure _

theorem quiet_checkType (expected got : Ty) (context : String) (span : Span) :
    Quiet phase (checkType expected got context span) := by
  unfold checkType
  split
  · exact quiet_report _ _ rfl
  · exact .pure _

theorem quiet_checkValueTypes (expected : List Ty) (values : List (Value × Span))
    (context : String) : Quiet phase (checkValueTypes expected values context) :=
  .forM _ fun _ => quiet_checkType _ _ _ _

/-! ## Linking -/

/-- Walking an environment that waits. -/
theorem runs_walkOther {c : Context} {s : State} {o : ScopeStack} {target : EnvId}
    (h : Live c s o) :
    Runs (walkOther target) c s fun _ s' => ∃ result session,
      c.walk target s.session = .ok (result, session) ∧
        s' = { s with session := session, fatal := s.fatal <|> result } := by
  obtain ⟨result, session, hwalk, -⟩ := h.framing target s.session h.waitsNew
  have hrun : walkOther target c s =
      .ok ((), { s with session := session, fatal := s.fatal <|> result }) := by
    refine (bind_apply_ok rfl).trans <| (bind_apply_ok rfl).trans <|
      (bind_apply_ok (congrArg (· >>= fun a => .ok (a, s)) hwalk)).trans <|
      (bind_apply_ok rfl).trans ?_
    cases result with
    | none => simp; rfl
    | some error => rfl
  exact ⟨(), _, hrun, result, session, hwalk, rfl⟩

/-- An environment waits, or it was started if it is one of user code. -/
theorem runs_isStarted {c : Context} {s : State} (target : EnvId) :
    Runs (isStarted target) c s fun started s' => s' = s ∧
      (started = false → ∃ env, s.session.registry.get? target = some env ∧
        env.state = .notWalked) ∧
      (started = true → ∀ env, s.session.registry.get? target = some env →
        env.state ≠ .notWalked) := by
  refine runs_registry.bind fun r t ⟨hr, ht⟩ => ?_
  subst hr ht
  split
  · next env henv =>
    refine .pure ⟨rfl, fun hst => ⟨env, henv, by simpa using hst⟩, fun hst env' henv' => ?_⟩
    obtain rfl := Option.some.inj (henv.symm.trans henv')
    simpa using hst
  · next hnone => exact .pure ⟨rfl, by simp, fun _ env henv => by simp [hnone] at henv⟩

/-- A check that runs after the registry was read. -/
theorem Quiet.registry_bind {g : Registry → Check β}
    (hg : ∀ c s o, Live c s o → Runs (g s.session.registry) c s fun _ s' =>
      Steps c phase s s' ∧ Live c s' o) : Quiet phase (registry >>= g) := by
  intro c s o h
  refine runs_registry.bind fun r t ⟨hr, ht⟩ => ?_
  subst hr ht
  exact hg c _ o h

/-- A refused access is reported in every phase. -/
theorem reports_accessError? {r : Registry} {source target : EnvId} {kind : AlertKind}
    (h : r.accessError? source target = some kind) : phase.reports kind = true := by
  unfold Registry.accessError? at h
  split at h
  · cases h
  · split at h
    · split at h <;> cases h
      rfl
    · split at h
      · cases h
      · split at h <;> cases h
        rfl

/-- A requirement is recorded if the kinds of the two environments allow it. -/
theorem runs_require {c : Context} {s : State} {o : ScopeStack} (phase : Phase) (h : Live c s o)
    (target : EnvId) (span : Span) :
    Runs (require target span) c s fun allowed s' =>
      (allowed = false ∧ Steps c phase s s' ∧ Live c s' o) ∨
      (allowed = true ∧ s.session.registry.accessError? c.env target = none ∧ Live c s' o ∧
        s' = s.modifyOwn c (·.require target)) := by
  refine runs_registry.bind fun r t ⟨hr, ht⟩ => runs_ownId.bind fun id u ⟨hid, hu⟩ => ?_
  subst hr ht hid hu
  split
  · next kind hkind =>
    refine (quiet_report kind span (reports_accessError? hkind) c _ o h).bind
      fun _ v hv => .pure (.inl ⟨rfl, hv⟩)
  · next hnone =>
    refine (runs_modifyEnvironment h _).bind fun _ t ht => .pure (.inr ⟨rfl, hnone, ?_, ht⟩)
    subst ht
    refine h.modifyOwn fun env _ ho => ?_
    unfold Environment.require
    split <;> exact ⟨rfl, ho⟩

/-- An import of a required environment. -/
theorem runs_addImport [hphase : phase.Opens] {c : Context} {s : State} {o : ScopeStack} (h : Live c s o)
    {target : EnvId} (other : target ≠ c.env)
    (required : ∀ env, s.own? c = some env → env.lacksRequirement target = false) :
    Runs (modifyEnvironment (·.addImport target)) c s fun _ s' =>
      Steps c phase s s' ∧ Live c s' o := by
  refine (runs_modifyEnvironment h _).mono fun _ t ht => ?_
  subst ht
  have hkept (env : Environment) : (env.addImport target).requirements = env.requirements := by
    unfold Environment.addImport
    split <;> rfl
  refine ⟨.single (.edit _ _ (.addImport target hphase.ne other required) (.inr hkept)),
    h.modifyOwn fun env _ ho => ?_⟩
  unfold Environment.addImport
  split <;> exact ⟨rfl, ho⟩

/-- Only an environment that waits is walked: one that was started is left alone. -/
theorem runs_ensureWalked {c : Context} {s : State} {o : ScopeStack} (h : Live c s o)
    (target : EnvId) (span : Span) :
    Runs (ensureWalked target span) c s fun _ s' => Ensures c target s s' := by
  refine runs_ownId.bind fun own t ⟨hown, ht⟩ => ?_
  subst hown ht
  split
  · next hexempt => exact .pure (.exempt (by simpa using hexempt))
  · next hother =>
    have hne : target ≠ c.env := fun heq => hother (by simp [heq])
    refine runs_registry.bind fun r u ⟨hr, hu⟩ => ?_
    subst hr hu
    split
    · next cycle hcycle =>
      split
      · next hlacks => exact ⟨(), _, rfl, .report cycle span hne hcycle hlacks⟩
      · next hknown => exact .pure (.reported cycle hne hcycle (by simpa using hknown))
    · next hnone =>
      refine (runs_isStarted target).bind fun started v ⟨hv, hwaiting, hstarted⟩ => ?_
      subst hv
      cases started with
      | true => exact .pure (.started hne hnone (hstarted rfl))
      | false =>
        refine (runs_walkOther h).mono fun _ w ⟨result, session, hwalk, hw⟩ => ?_
        subst hw
        exact .walk result session hne hnone (hwaiting rfl) hwalk

/-- Asking for an imported environment. -/
theorem runs_ensureImported {c : Context} {s : State} {o : ScopeStack} (h : Live c s o)
    {target : EnvId} (himported : s.Imports c target) (span : Span) :
    Runs (ensureWalked target span) c s fun _ s' => Steps c phase s s' ∧ Live c s' o :=
  (runs_ensureWalked h target span).mono fun _ _ hensures =>
    ⟨.single (.ensure target himported hensures), (hensures.frames h).2.1⟩

/-- Linking an environment that was found by its name. If the kinds allow it, the environment is
required afterwards. -/
theorem runs_link {c : Context} {s : State} {o : ScopeStack} (phase : Phase) (h : Live c s o)
    {target : EnvId} (named : ∃ name, s.session.registry.lookup? name = some target) (span : Span) :
    Runs (link target span) c s fun linked s' => (Steps c phase s s' ∧ Live c s' o) ∧
      (linked = true → target ≠ c.env → ∀ env, s'.own? c = some env →
        env.lacksRequirement target = false) := by
  refine runs_ownId.bind fun own t ⟨hown, ht⟩ => ?_
  subst hown ht
  split
  · next heq => exact .pure ⟨⟨.refl, h⟩, fun _ hne => absurd (by simpa using heq) hne⟩
  · refine (runs_require phase h target span).bind fun allowed t ht => ?_
    rcases ht with ⟨rfl, hsteps⟩ | ⟨rfl, hallowed, hl, rfl⟩
    · exact .pure ⟨hsteps, nofun⟩
    · refine (runs_ensureWalked hl target span).bind fun _ u hensures => .pure ⟨⟨.single
        (.link target hallowed named hensures), (hensures.frames hl).2.1⟩, fun _ _ env henv => ?_⟩
      rw [(hensures.frames hl).2.2, own?_modifyOwn] at henv
      obtain ⟨before, -, rfl⟩ := Option.map_eq_some_iff.1 henv
      exact before.lacksRequirement_require target

theorem quiet_link_lookup {name : String} {target : EnvId} {span : Span} {g : Bool → Check β}
    {c : Context} {s : State} {o : ScopeStack} (h : Live c s o)
    (hlookup : s.session.registry.lookup? name = some target) (hg : ∀ linked, Quiet phase (g linked)) :
    Runs (link target span >>= g) c s fun _ s' => Steps c phase s s' ∧ Live c s' o := by
  refine (runs_link phase h ⟨name, hlookup⟩ span).bind fun linked t ⟨⟨ht, hl⟩, _⟩ => ?_
  exact (hg linked c t o hl).mono fun _ u ⟨hu, hl'⟩ => ⟨ht.trans hu, hl'⟩

/-- The target of a `use` was found by its name, and is another environment. -/
theorem runs_useTarget? {c : Context} {s : State} {o : ScopeStack} (phase : Phase)
    (h : Live c s o) (stmt : UseStmt) :
    Runs (useTarget? stmt) c s fun found s' => (Steps c phase s s' ∧ Live c s' o) ∧
      ∀ target ∈ found, s' = s ∧ s.session.registry.lookup? stmt.path.name = some target ∧
        target ≠ c.env := by
  refine runs_registry.bind fun r t ⟨hr, ht⟩ => ?_
  subst hr ht
  split
  · next target hlookup =>
    refine runs_ownId.bind fun own u ⟨hown, hu⟩ => .pure ?_
    subst hown hu
    refine ⟨⟨.refl, h⟩, fun found hfound => ?_⟩
    split at hfound
    · cases hfound
    · next hne =>
      cases hfound
      exact ⟨rfl, hlookup, by simpa using hne⟩
  · have hreport : Quiet phase (report (.invalidEnvironment stmt.path.name) stmt.path.span) :=
      quiet_report _ _ rfl
    exact (hreport c _ o h).bind fun _ _ hu => .pure ⟨hu, nofun⟩

theorem quiet_useEnvironment [phase.Opens] (stmt : UseStmt) : Quiet phase (useEnvironment stmt) := by
  intro c s o h
  refine (runs_useTarget? phase h stmt).bind fun found t ⟨⟨ht, hl⟩, hfound⟩ => ?_
  cases found with
  | none => exact .pure ⟨ht, hl⟩
  | some target =>
    obtain ⟨rfl, hlookup, hne⟩ := hfound target rfl
    refine (runs_link phase hl ⟨_, hlookup⟩ _).bind
      fun linked u ⟨⟨hu, hl'⟩, hrequired⟩ => ?_
    cases linked with
    | false => exact .pure ⟨ht.trans hu, hl'⟩
    | true =>
      exact (runs_addImport hl' hne (hrequired rfl hne)).mono fun _ _ ⟨hv, hl''⟩ =>
        ⟨(ht.trans hu).trans hv, hl''⟩

/-- A root `use` that names another environment records the requirement and the import, if the kinds
allow it. -/
theorem runs_importEnvironment {c : Context} {s : State} {o : ScopeStack} (phase : Phase)
    (h : Live c s o) (stmt : UseStmt) :
    Runs (importEnvironment stmt) c s fun _ s' => Live c s' o ∧ (Steps c phase s s' ∨
      ∃ target, s.session.registry.lookup? stmt.path.name = some target ∧ target ≠ c.env ∧
        s.session.registry.accessError? c.env target = none ∧
        s' = (s.modifyOwn c (·.require target)).modifyOwn c (·.addImport target)) := by
  refine (runs_useTarget? phase h stmt).bind fun found t ⟨⟨ht, hl⟩, hfound⟩ => ?_
  cases found with
  | none => exact .pure ⟨hl, .inl ht⟩
  | some target =>
    obtain ⟨rfl, hlookup, hne⟩ := hfound target rfl
    refine (runs_require phase hl target stmt.span).bind fun allowed u hu => ?_
    rcases hu with ⟨rfl, hsteps⟩ | ⟨rfl, hallowed, hl', rfl⟩
    · exact .pure ⟨hsteps.2, .inl (ht.trans hsteps.1)⟩
    · refine (runs_modifyEnvironment hl' _).mono fun _ v hv => ?_
      subst hv
      refine ⟨hl'.modifyOwn fun env _ ho => ?_, .inr ⟨target, hlookup, hne, hallowed, rfl⟩⟩
      unfold Environment.addImport
      split <;> exact ⟨rfl, ho⟩

theorem quiet_importEnvironment (stmt : UseStmt) : Quiet .importing (importEnvironment stmt) := by
  intro c s o h
  refine (runs_importEnvironment .importing h stmt).mono fun _ t ⟨hl, ht⟩ => ⟨?_, hl⟩
  rcases ht with hsteps | ⟨target, hlookup, hne, hallowed, rfl⟩
  · exact hsteps
  · have hrequire : Step c .importing s (s.modifyOwn c (·.require target)) :=
      .edit s _ (.require target hallowed ⟨_, hlookup⟩) (.inl rfl)
    refine (Relation.ReflTransGen.single hrequire).tail
      (.edit _ _ (.addImport target Phase.Opens.ne hne fun env henv => ?_) (.inl rfl))
    rw [own?_modifyOwn] at henv
    obtain ⟨before, -, rfl⟩ := Option.map_eq_some_iff.1 henv
    exact before.lacksRequirement_require target

/-- The target of a root `use` is asked for if it was imported. -/
theorem runs_walkImport {c : Context} {s : State} {o : ScopeStack} (h : Live c s o)
    (stmt : UseStmt) :
    Runs (walkImport stmt) c s fun _ s' =>
      (∃ target, s.session.registry.lookup? stmt.path.name = some target ∧ s.Imports c target ∧
        Ensures c target s s') ∨
      (s' = s ∧ ∀ target, s.session.registry.lookup? stmt.path.name = some target →
        ¬s.Imports c target) := by
  refine runs_registry.bind fun r t ⟨hr, ht⟩ => ?_
  subst hr ht
  split
  · next target hlookup =>
    refine (runs_environment h).bind fun env t ⟨ht, hown, _⟩ => ?_
    subst ht
    split
    · next himports =>
      exact (runs_ensureWalked h target _).mono fun _ _ hensures =>
        .inl ⟨target, hlookup, ⟨env, hown, by simpa using himports⟩, hensures⟩
    · next hnot =>
      refine .pure (.inr ⟨rfl, fun found hfound himports => hnot ?_⟩)
      obtain rfl := Option.some.inj (hlookup.symm.trans hfound)
      obtain ⟨env', hown', hmem⟩ := himports
      obtain rfl := Option.some.inj (hown.symm.trans hown')
      simpa using hmem
  · next hnone => exact .pure (.inr ⟨rfl, fun _ hfound => by simp [hnone] at hfound⟩)

theorem quiet_walkImport (stmt : UseStmt) : Quiet phase (walkImport stmt) := by
  intro c s o h
  refine (runs_walkImport h stmt).mono fun _ t ht => ?_
  rcases ht with ⟨target, -, himports, hensures⟩ | ⟨rfl, -⟩
  · exact ⟨.single (.ensure target himports hensures), (hensures.frames h).2.1⟩
  · exact ⟨.refl, h⟩

/-! ## Names -/

theorem quiet_foreignVariable? (target : EnvId) (name : String) :
    Quiet phase (foreignVariable? target name) := by
  unfold foreignVariable?
  split
  · exact .pure _
  · exact quiet_registry.bind fun _ => .pure _

theorem quiet_selfField (id : Ident) (owner : DeclRef) (kind : NamedKind) (value : Value) :
    Quiet phase (selfField id owner kind value) := by
  unfold selfField
  refine quiet_scopes.bind fun stack => ?_
  split
  · exact .bind (quiet_report _ _ rfl) fun _ => .pure _
  · exact (quiet_members? _ _).bind fun _ => .pure _

theorem quiet_scopedName [phase.Looks] (id : Ident) (position : Nat) :
    Quiet phase (scopedName id position) := by
  have hused (v : Variable) : ({ v with isUsed := true } : Variable).unread = v.unread := rfl
  unfold scopedName
  refine quiet_scopes.bind fun stack => ?_
  split
  · exact .pure _
  · refine (quiet_modifyVariable fun stack =>
      Phase.Looks.keepsUnread (stack.unread_modifyVariable _ _ hused)).bind fun _ => ?_
    split
    · exact .pure _
    · exact quiet_selfField _ _ _ _
    · exact .pure _

theorem quiet_importedVariable? (id : Ident) (imports : List EnvId) :
    Quiet phase (importedVariable? id imports) := by
  induction imports with
  | nil => exact .pure _
  | cons target rest ih =>
    unfold importedVariable?
    refine (quiet_foreignVariable? _ _).bind fun binding => ?_
    split
    · exact ih
    · split
      · exact quiet_registry.bind fun _ => .bind (quiet_report _ _ rfl) fun _ => .pure _
      · exact .pure _

theorem quiet_importedEnum? (name : String) (imports : List EnvId) :
    Quiet phase (importedEnum? name imports) := by
  induction imports with
  | nil => exact .pure _
  | cons target rest ih =>
    unfold importedEnum?
    refine (quiet_enum? _).bind fun info => ?_
    split
    · exact ih
    · exact .pure _

theorem quiet_qualify (target : EnvId) (id : Ident) : Quiet phase (qualify target id) :=
  quiet_registry.bind fun _ => .pure _

theorem quiet_enumName (id : Ident) : Quiet phase (enumName id) := by
  unfold enumName
  refine quiet_environment.bind fun env => ?_
  split
  · exact .pure _
  · refine (quiet_importedEnum? _ _).bind fun found => ?_
    split
    · refine quiet_ownId.bind fun own => ?_
      split
      · exact .pure _
      · exact (quiet_qualify _ _).bind fun _ => .pure _
    · exact .bind (quiet_report _ _ rfl) fun _ => .pure _

theorem quiet_identifier [phase.Looks] (id : Ident) : Quiet phase (identifier id) := by
  unfold identifier
  refine quiet_scopes.bind fun stack => ?_
  split
  · exact quiet_scopedName _ _
  · split
    · exact .pure _
    · refine quiet_environment.bind fun env => (quiet_importedVariable? _ _).bind fun found => ?_
      split
      · split
        · exact .pure _
        · exact (quiet_qualify _ _).bind fun _ => .pure _
      · exact quiet_enumName _

theorem quiet_builtinValue (id : Ident) : Quiet phase (builtinValue id) := by
  unfold builtinValue
  split
  · exact .pure _
  · exact .bind (quiet_report _ _ rfl) fun _ => .pure _

theorem quiet_qualified? (target : EnvId) (name : String) :
    Quiet phase (qualified? target name) := by
  unfold qualified?
  refine (quiet_foreignVariable? _ _).bind fun binding => ?_
  split
  · exact .pure _
  · refine (quiet_enum? _).bind fun info => ?_
    split
    · exact .pure _
    · exact .pure _

theorem quiet_qualifiedName (env name : Ident) (span : Span) :
    Quiet phase (qualifiedName env name span) := by
  unfold qualifiedName
  refine .registry_bind fun c s o h => ?_
  split
  · exact Quiet.bind (quiet_report _ _ rfl) (fun _ => .pure _) c s o h
  · next target hlookup =>
    refine quiet_link_lookup h hlookup fun linked => ?_
    split
    · exact .pure _
    · refine (quiet_qualified? _ _).bind fun found => ?_
      split
      · exact .bind (quiet_report _ _ rfl) fun _ => .pure _
      · refine quiet_ownId.bind fun own => .guard (quiet_report _ _ rfl) fun _ => ?_
        split
        · exact .pure _
        · exact .pure _

theorem quiet_selfValue (span : Span) : Quiet phase (selfValue span) := by
  unfold selfValue
  refine quiet_scopes.bind fun stack => ?_
  split
  · exact .bind (quiet_report _ _ rfl) fun _ => .pure _
  · refine quiet_scopes.bind fun stack => ?_
    split
    · exact .pure _
    · exact .pure _
    · exact .bind (quiet_report _ _ rfl) fun _ => .pure _

/-! ## Written types -/

theorem quiet_declaredIn? (target : EnvId) (name : String) :
    Quiet phase (declaredIn? target name) := by
  unfold declaredIn?
  split
  · exact .pure _
  · exact quiet_registry.bind fun _ => .pure _

theorem quiet_qualifiedType (env name : Ident) : Quiet phase (qualifiedType env name) := by
  unfold qualifiedType
  refine .registry_bind fun c s o h => ?_
  split
  · exact Quiet.bind (quiet_report _ _ rfl) (fun _ => .pure _) c s o h
  · next target hlookup =>
    refine quiet_link_lookup h hlookup fun linked => ?_
    split
    · refine (quiet_declaredIn? _ _).bind fun declared => ?_
      split
      · exact quiet_ownId.bind fun own => .guard (quiet_report _ _ rfl) fun _ => .pure _
      · exact .bind (quiet_report _ _ rfl) fun _ => .pure _
    · exact .pure _

/-- The imports that are gone through stay imports of the own environment. -/
theorem runs_importedType? {c : Context} {s : State} {o : ScopeStack} (phase : Phase)
    (h : Live c s o) (name : Ident) (imports : List EnvId) (himports : ∀ target ∈ imports, s.Imports c target)
    (found : Option (EnvId × Ty)) :
    Runs (importedType? name imports found) c s fun _ s' => Steps c phase s s' ∧ Live c s' o := by
  induction imports generalizing s found with
  | nil => exact .pure ⟨.refl, h⟩
  | cons target rest ih =>
    have hwalked (started : Bool) (m : Check (Option Ty)) (hm : ∀ t, Steps c phase s t →
        Live c t o → Runs m c t fun _ s' => Steps c phase t s' ∧ Live c s' o) :
        Runs (if !started then ensureWalked target name.span >>= fun _ => m else m) c s
          fun _ s' => Steps c phase s s' ∧ Live c s' o := by
      split
      · have hensure : Runs (ensureWalked target name.span) c s fun _ s' =>
            Steps c phase s s' ∧ Live c s' o := runs_ensureImported h (himports target (by simp)) _
        refine hensure.bind fun _ t ⟨ht, hl⟩ => ?_
        exact (hm t ht hl).mono fun _ _ ⟨hu, hl'⟩ => ⟨ht.trans hu, hl'⟩
      · exact hm s .refl h
    unfold importedType?
    refine (runs_isStarted target).bind fun started t ⟨ht, _, _⟩ => ?_
    subst ht
    refine hwalked started _ fun t ht hl => ?_
    have hdeclared : Quiet phase (declaredIn? target name.name) := quiet_declaredIn? _ _
    refine (hdeclared c t o hl).bind fun declared u ⟨hu, hl'⟩ => ?_
    have hrest (found : Option (EnvId × Ty)) : Runs (importedType? name rest found) c u
        fun _ s' => Steps c phase t s' ∧ Live c s' o :=
      (ih hl' (fun other hother => Steps.imports h (ht.trans hu) (himports other (by simp [hother])))
        found).mono fun _ _ ⟨hv, hl''⟩ => ⟨hu.trans hv, hl''⟩
    dsimp only
    split
    · exact hrest _
    · exact hrest _
    · exact (quiet_registry.bind (fun _ => .bind (quiet_report _ _ rfl) fun _ => .pure _) c u o hl').mono
        fun _ _ ⟨hv, hl''⟩ => ⟨hu.trans hv, hl''⟩

theorem quiet_namedType (name : Ident) : Quiet phase (namedType name) := by
  unfold namedType
  refine quiet_scopes.bind fun stack => ?_
  split
  · exact .pure _
  · intro c s o h
    refine (runs_environment h).bind fun env t ⟨ht, hown, _⟩ => ?_
    subst ht
    split
    · exact .pure ⟨.refl, h⟩
    · split
      · exact .pure ⟨.refl, h⟩
      · refine (runs_importedType? phase h name env.imports
          (fun _ htarget => ⟨env, hown, htarget⟩) none).bind fun found u ⟨hu, hl⟩ => ?_
        split
        · exact .pure ⟨hu, hl⟩
        · exact (Quiet.bind (quiet_report _ _ rfl) (fun _ => .pure _) c u o hl).mono
            fun _ _ ⟨hv, hl'⟩ => ⟨hu.trans hv, hl'⟩

theorem quiet_resolveTypes_of {written : List TypeExpr}
    (h : ∀ w ∈ written, Quiet phase (resolveType w)) : Quiet phase (resolveTypes written) := by
  induction written with
  | nil => exact .pure _
  | cons first rest ih =>
    exact (h first (by simp)).bind fun _ => (ih fun w hw => h w (by simp [hw])).bind fun _ =>
      .pure _

mutual
theorem quiet_resolveType (written : TypeExpr) : Quiet phase (resolveType written) :=
  match written with
  | ⟨env, name, wrapped, params, returns, isVariadic, span⟩ => by
    have hwrapped := quiet_resolveType_of_mem wrapped
    have hparams := quiet_resolveTypes_of (quiet_resolveType_of_mem params)
    have hreturns := quiet_resolveTypes_of (quiet_resolveType_of_mem returns)
    unfold resolveType
    dsimp only
    split
    · exact (quiet_qualifiedType _ _).bind fun _ => .pure _
    · split
      · exact (hwrapped _ (by simp)).bind fun _ => .pure _
      · exact .bind (quiet_report _ _ rfl) fun _ => .pure _
    · refine .guard (quiet_report _ _ rfl) fun _ => ?_
      split
      · exact .pure _
      · split
        · exact hparams.bind fun _ => hreturns.bind fun _ => .pure _
        · exact (quiet_namedType _).bind fun _ => .pure _
  termination_by structural written

theorem quiet_resolveType_of_mem (written : List TypeExpr) :
    ∀ w ∈ written, Quiet phase (resolveType w) :=
  match written with
  | [] => by simp
  | first :: rest => by
    have hfirst := quiet_resolveType first
    have hrest := quiet_resolveType_of_mem rest
    intro w hw
    rcases List.mem_cons.1 hw with rfl | hw
    · exact hfirst
    · exact hrest w hw
  termination_by structural written
end

theorem quiet_resolveTypes (written : List TypeExpr) : Quiet phase (resolveTypes written) :=
  quiet_resolveTypes_of (quiet_resolveType_of_mem written)

theorem quiet_resolveType? (written : Option TypeExpr) : Quiet phase (resolveType? written) := by
  unfold resolveType?
  split
  · exact (quiet_resolveType _).bind fun _ => .pure _
  · exact .pure _

theorem quiet_distinctGenerics (generics : List Ident) (seen : List String) :
    Quiet phase (distinctGenerics generics seen) := by
  induction generics generalizing seen with
  | nil => exact .pure _
  | cons generic rest ih =>
    unfold distinctGenerics
    split
    · exact .bind (quiet_report _ _ rfl) fun _ => ih _
    · exact ih _

/-- The scope that binds generic parameters hands nothing on. -/
theorem quiet_resolveSignature [phase.Opens] (generics : List Ident) (params : List Param)
    (returns : List TypeExpr) : Quiet phase (resolveSignature generics params returns) := by
  refine (quiet_distinctGenerics _ _).bind fun names => ?_
  refine Quiet.bind (.scoped_of_quiet (·.funcScope _)
    (fun stack => stack.pushFunction_opens _) (fun _ => rfl) ?_) fun _ => .pure _
  exact (quiet_resolveTypes _).bind fun _ => (quiet_resolveTypes _).bind fun _ => .pure _

/-! ## Fields and elements -/

theorem quiet_memberValue (field : Ident) (owner : DeclRef) (kind : NamedKind) :
    Quiet phase (memberValue field owner kind) := by
  unfold memberValue
  refine (quiet_members? _ _).bind fun members => ?_
  split
  · exact (quiet_fail _ _).bind fun _ => .pure _
  · split
    · exact .pure _
    · exact .pure _
    · exact .bind (quiet_report _ _ rfl) fun _ => .pure _

theorem quiet_fieldAccess (target : Expr) (value : Value) (field : Ident) (index : Option Nat)
    (span : Span) : Quiet phase (fieldAccess target value field index span) := by
  unfold fieldAccess
  dsimp only
  split
  · exact (quiet_memberValue _ _ _).bind fun _ => .pure _
  · exact (quiet_memberValue _ _ _).bind fun _ => .pure _
  · refine (quiet_enum? _).bind fun info => ?_
    split
    · split
      · exact .pure _
      · exact .pure _
    · exact .bind (quiet_report _ _ rfl) fun _ => .pure _
  · exact .bind (quiet_report _ _ rfl) fun _ => .pure _
  · exact .bind (quiet_report _ _ rfl) fun _ => .pure _
  · exact .pure _
  · exact .bind (quiet_report _ _ rfl) fun _ => .pure _

theorem quiet_checkListIndex (index : Value) (span : Span) :
    Quiet phase (checkListIndex index span) := by
  unfold checkListIndex
  split
  · exact quiet_report _ _ rfl
  · split
    · split
      · exact quiet_report _ _ rfl
      · split
        · exact quiet_report _ _ rfl
        · exact .pure _
    · exact .pure _

theorem quiet_elementValue (target : Expr) (value : Value) (index : Expr) (indexValue : Value) :
    Quiet phase (elementValue target value index indexValue) := by
  unfold elementValue
  split
  · exact (quiet_checkListIndex _ _).bind fun _ => .pure _
  · exact .guard (quiet_report _ _ rfl) fun _ => .pure _
  · exact .pure _
  · exact .bind (quiet_report _ _ rfl) fun _ => .pure _

/-! ## Calls -/

theorem quiet_bindGenerics (signature : Signature) (explicit args : List Ty) (span : Span) :
    Quiet phase (bindGenerics signature explicit args span) := by
  unfold bindGenerics
  dsimp only
  have hmissing (names : List String) :
      Quiet phase (names.forM fun name => report (.unresolvedGeneric name) span) :=
    .forM _ fun _ => quiet_report _ _ rfl
  split
  · exact (Quiet.pure _).bind fun _ => .guard (hmissing _) fun _ => .pure _
  · exact .bind (quiet_report _ _ rfl) fun _ => (Quiet.pure _).bind fun _ =>
      .guard (hmissing _) fun _ => .pure _

theorem reports_argumentMismatches {params : List Ty} {args : List (Ty × Span)} {index : Nat}
    {a : Alert} (h : a ∈ argumentMismatches params index args) :
    phase.reports a.kind = true := by
  induction args generalizing index with
  | nil => cases h
  | cons arg rest ih =>
    obtain ⟨ty, span⟩ := arg
    unfold argumentMismatches at h
    split at h
    · cases h
    · dsimp only at h
      split at h
      · exact ih h
      · rcases List.mem_cons.1 h with rfl | h
        · rfl
        · exact ih h

/-- What is wrong with the arguments of a call is reported in every phase. -/
theorem reports_validateArguments {params : List Ty} {args : List (Ty × Span)} {span : Span}
    {a : Alert} (h : a ∈ validateArguments params args span) : phase.reports a.kind = true := by
  have hone {condition : Prop} [Decidable condition] {kind : AlertKind} {at' : Span}
      (hkind : phase.reports kind = true)
      (ha : a ∈ if condition then [{ kind := kind, span := at' }] else []) :
      phase.reports a.kind = true := by
    split at ha
    · rwa [List.mem_singleton.1 ha]
    · cases ha
  unfold validateArguments at h
  dsimp only at h
  rcases List.mem_append.1 h with h | h
  · rcases List.mem_append.1 h with h | h
    · exact hone rfl h
    · split at h
      · rw [List.mem_singleton.1 h]
        rfl
      · cases h
  · exact reports_argumentMismatches h

/-- A call is quiet if the walk of its arguments is. -/
theorem quiet_call {walkArgs : List Ty → Check (List Expr × List (Value × Span))}
    (signature : Signature) (explicit : List TypeExpr) (span : Span)
    (h : ∀ hints, Quiet phase (walkArgs hints)) :
    Quiet phase (call signature explicit walkArgs span) :=
  (quiet_resolveTypes _).bind fun _ => (h _).bind fun _ => (quiet_bindGenerics _ _ _ _).bind
    fun _ => Quiet.bind (.forM_mem fun _ ha => quiet_alert _ (reports_validateArguments ha))
      fun _ => .pure _

theorem quiet_calledMethod (owner : DeclRef) (kind : NamedKind) (method : Ident) :
    Quiet phase (calledMethod owner kind method) := by
  unfold calledMethod
  refine (quiet_members? _ _).bind fun members => ?_
  split
  · exact (quiet_fail _ _).bind fun _ => .pure _
  · split
    · exact .pure _
    · exact .bind (quiet_report _ _ rfl) fun _ => .pure _

theorem quiet_constructed (ty : TypeExpr) (kind : NamedKind) (keyword : String) :
    Quiet phase (constructed ty kind keyword) := by
  unfold constructed
  refine (quiet_resolveType _).bind fun resolved => ?_
  split
  · exact (quiet_class? _).bind fun _ => .pure _
  · exact (quiet_entity? _).bind fun _ => .pure _
  · exact .guard (quiet_report _ _ rfl) fun _ => .pure _

/-! ## Operators -/

theorem quiet_checkOperand (op : String) (expected got : Ty) (span : Span) :
    Quiet phase (checkOperand op expected got span) := by
  unfold checkOperand
  split
  · exact quiet_report _ _ rfl
  · exact .pure _

theorem quiet_binaryValue (op : BinaryOp) (left right : Value) (span : Span) :
    Quiet phase (binaryValue op left right span) := by
  unfold binaryValue
  dsimp only
  split
  · split <;> exact .pure _
  · split
    · split
      · exact .bind (quiet_report _ _ rfl) fun _ => .pure _
      · exact .pure _
    · split
      · exact .bind (quiet_report _ _ rfl) fun _ => .pure _
      · exact .pure _
    · exact .guard (quiet_report _ _ rfl) fun _ => .pure _
    · exact (quiet_checkOperand _ _ _ _).bind fun _ => (quiet_checkOperand _ _ _ _).bind
        fun _ => .pure _
    · exact (quiet_checkOperand _ _ _ _).bind fun _ => (quiet_checkOperand _ _ _ _).bind
        fun _ => .pure _

theorem quiet_unaryValue (op : UnaryOp) (operand : Value) (span : Span) :
    Quiet phase (unaryValue op operand span) := by
  unfold unaryValue
  cases op with
  | not => exact .guard (quiet_checkOperand _ _ _ _) fun _ => .pure _
  | neg =>
    dsimp only
    split
    · exact .pure _
    · split
      · exact .bind (quiet_report _ _ rfl) fun _ => .pure _
      · exact .pure _
  | len => exact .guard (quiet_report _ _ rfl) fun _ => .pure _

theorem quiet_dropUnderOr [phase.Collects] (before : Nat) (span : Span) :
    Quiet phase (dropUnderOr before span) := by
  unfold dropUnderOr
  refine quiet_get.bind fun s => ?_
  dsimp only
  split
  · exact .bind (quiet_report _ _ rfl) fun _ =>
      .of_modify (fun _ s => .narrow s _ Phase.Collects.narrows) fun _ => rfl
  · exact .pure _

/-! ## Entity tests -/

/-- A check that goes on from a flag, which is looked up under a condition. -/
theorem Quiet.flag {γ : Type} {b : Prop} [Decidable b] {m : Check γ} {g : γ → α} {a : α}
    {f : α → Check β} (hm : Quiet phase m) (hf : ∀ x, Quiet phase (f x)) :
    Quiet phase (if b then m >>= fun y => Pure.pure (g y) >>= f else Pure.pure a >>= f) := by
  split
  · exact hm.bind fun _ => (Quiet.pure _).bind hf
  · exact (Quiet.pure _).bind hf

theorem quiet_entityTest [phase.Collects] (ty : TypeExpr) (binding : Option Ident) (negated : Bool)
    (span : Span) : Quiet phase (entityTest ty binding negated span) := by
  have hnarrow (n : Narrowing) : Quiet phase
      (modify fun s : State => { s with narrowings := s.narrowings ++ [n] } : Check PUnit) :=
    .of_modify (fun _ s => .narrow s _ Phase.Collects.narrows) fun _ => rfl
  unfold entityTest
  dsimp only
  refine .flag quiet_environment fun isEngine => ?_
  split
  · exact .guard (quiet_report _ _ rfl) fun _ => .pure _
  · refine (quiet_resolveType _).bind fun resolved => ?_
    split
    · split
      · exact (hnarrow _).bind fun _ => .pure _
      · exact .pure _
    · exact .pure _
    · exact .bind (quiet_report _ _ rfl) fun _ => .pure _

theorem quiet_conditionNarrowings [phase.Collects] (condition : Expr) (value : Value) :
    Quiet phase (conditionNarrowings condition value) :=
  (quiet_checkType _ _ _ _).bind fun _ => quiet_takeNarrowings

theorem quiet_declareNarrowings [phase.Binds] (narrowings : List Narrowing) (negated : Bool) :
    Quiet phase (declareNarrowings narrowings negated) :=
  .forM _ fun _ => quiet_declare _ _

/-! ## Assignment -/

theorem quiet_assignLocal [phase.Binds] (target : Expr) : Quiet phase (assignLocal target) := by
  unfold assignLocal
  split
  · refine quiet_scopes.bind fun stack => ?_
    split
    · refine .scopes_bind fun c s o stack h ho hown => ?_
      split
      · next scopes ha =>
        exact (runs_setScopes h hown ((ScopeStack.outline_assign ha).trans ho)
          (ScopeStack.keepsRoot_assign ha)).bind fun _ t ht => .pure ht
      · exact (quiet_reportScopeError _ _ _).bind (fun _ => .pure _) c s o h
    · exact .pure _
  · exact .pure _

theorem quiet_markFieldInitialized [phase.Binds] (name : String) :
    Quiet phase (markFieldInitialized name) := by
  have hinit (v : Variable) : ({ v with isInit := true } : Variable).settled = v.settled := rfl
  unfold markFieldInitialized
  refine quiet_scopes.bind fun stack => ?_
  split
  · exact quiet_modifyVariable fun stack =>
      Phase.Binds.keepsRoot (stack.keepsRoot_modifyVariable _ _ hinit)
  · exact .pure _

theorem quiet_checkForeignConst (binding : Option Variable) (id : Ident) :
    Quiet phase (checkForeignConst binding id) := by
  unfold checkForeignConst
  split
  · exact quiet_report _ _ rfl
  · exact .pure _

theorem quiet_finishPlace [phase.Binds] (written resolved : Expr) (isLocal : Bool) :
    Quiet phase (finishPlace written resolved isLocal) := by
  unfold finishPlace
  split
  · exact quiet_markFieldInitialized _
  · exact quiet_checkForeignConst _ _
  · refine quiet_registry.bind fun r => ?_
    split
    · exact (quiet_foreignVariable? _ _).bind fun _ => quiet_checkForeignConst _ _
    · exact .pure _
  · split
    · split
      · exact quiet_report _ _ rfl
      · exact .pure _
    · exact .pure _
  · exact .pure _

theorem quiet_checkAssigned (op : AssignOp) (targets : List Value)
    (values : List (Value × Span)) : Quiet phase (checkAssigned op targets values) := by
  unfold checkAssigned
  split
  · exact quiet_checkValueTypes _ _ _
  · exact .forM _ fun _ => (quiet_binaryValue _ _ _ _).bind fun _ => quiet_checkType _ _ _ _

/-! ## Declarations -/

theorem quiet_typedDefaults (ty : Ty) (names : List Ident) :
    Quiet phase (typedDefaults ty names) := by
  induction names with
  | nil => exact .pure _
  | cons name rest ih =>
    unfold typedDefaults
    dsimp only
    split
    · exact (Quiet.pure _).bind fun _ => ih.bind fun _ => .pure _
    · exact .guard (quiet_report _ _ rfl) fun _ => (Quiet.pure _).bind fun _ => ih.bind fun _ =>
        .pure _

theorem quiet_defaultValues (d : Declaration) : Quiet phase (defaultValues d) := by
  have hmissing : Quiet phase (d.names.forM fun name =>
      report (.explicitTypeRequiredInDeclaration name.name) name.span) :=
    .forM _ fun _ => quiet_report _ _ rfl
  unfold defaultValues
  refine .guard (quiet_report _ _ rfl) fun _ => ?_
  split
  · exact quiet_typedDefaults _ _
  · exact .guard hmissing fun _ => .pure _

theorem quiet_declaredValue (name : Ident) (declared : Option Ty) (given : Value) :
    Quiet phase (declaredValue name declared given) := by
  unfold declaredValue
  split
  · exact .pure _
  · exact .guard (quiet_report _ _ rfl) fun _ => .pure _

theorem quiet_declareNames [phase.Binds] (d : Declaration) (names : List Ident)
    (values : List Value) (literals : List (Option Literal)) :
    Quiet phase (declareNames d names values literals) := by
  induction names generalizing values literals with
  | nil => exact .pure _
  | cons name rest ih =>
    exact (quiet_declaredValue _ _ _).bind fun _ => (quiet_declare _ _).bind fun _ => ih _ _

theorem quiet_registeredFunction? (name : Ident) : Quiet phase (registeredFunction? name) := by
  unfold registeredFunction?
  refine quiet_scopes.bind fun stack => ?_
  split
  · split <;> exact .pure _
  · exact .pure _

theorem quiet_functionSignature [phase.Binds] (name : Ident) (generics : List Ident)
    (params : List Param) (returns : List TypeExpr) (isPub : Bool) (span : Span) :
    Quiet phase (functionSignature name generics params returns isPub span) := by
  unfold functionSignature
  refine quiet_scopes.bind fun stack => ?_
  split
  · refine (quiet_registeredFunction? _).bind fun found => ?_
    split
    · exact .pure _
    · exact quiet_resolveSignature _ _ _
  · refine .guard (quiet_report _ _ rfl) fun _ => (quiet_resolveSignature _ _ _).bind fun _ => ?_
    exact (quiet_declare _ _).bind fun _ => .pure _

theorem quiet_atRoot (what : String) (span : Span) : Quiet phase (atRoot what span) := by
  unfold atRoot
  refine quiet_scopes.bind fun stack => ?_
  split
  · exact .pure _
  · exact .bind (quiet_report _ _ rfl) fun _ => .pure _

/-! ## Classes, entities and functions -/

theorem quiet_bindMembers [phase.Binds] (members : Members) :
    Quiet phase (bindMembers members) :=
  Quiet.bind (.forM _ fun _ => quiet_declare _ _) fun _ => .forM _ fun _ => quiet_declare _ _

theorem quiet_setField [hphase : phase.Opens] (kind : NamedKind) (container field : String) (value : Value) :
    Quiet phase (modifyEnvironment (·.modifyMembers kind container (·.setField field value))) := by
  intro c s o h
  refine (runs_modifyEnvironment h _).mono fun _ t ht => ?_
  subst ht
  have hkept (env : Environment) :
      (env.modifyMembers kind container (·.setField field value)).requirements =
        env.requirements := by
    unfold Environment.modifyMembers
    split <;> rfl
  refine ⟨.single (.edit _ _ (.setField kind container field value hphase.ne) (.inr hkept)),
    h.modifyOwn fun env _ ho => ?_⟩
  unfold Environment.modifyMembers
  split <;> exact ⟨rfl, ho⟩

/-- A field is given the value of its initializer inside the scope of its container, and so no
variable of the root scope is changed. -/
theorem runs_refineField [phase.Opens] {c : Context} {s : State} {o : ScopeStack} {scope : Scope}
    (h : Live c s (o.cons scope)) (owner : DeclRef) (kind : NamedKind) (name : String)
    (value : Value) : Runs (refineField owner kind name value) c s fun _ s' =>
      Steps c phase s s' ∧ Live c s' (o.cons scope) := by
  have hinner (stack : ScopeStack) (ho : stack.outline = o.cons scope) :
      stack.currentPosition ≠ 0 := by
    have hlen := congrArg (fun stack => stack.inner.length) ho
    simp only [ScopeStack.outline, ScopeStack.cons, List.length_map, List.length_cons] at hlen
    simp [ScopeStack.currentPosition, hlen]
  refine (runs_modifyScopes phase h fun env _ ho =>
    ⟨(env.scopes.outline_modifyVariable _ name _).trans ho, ?_⟩).bind fun _ t ht => ?_
  · refine .of_bindings_eq phase ?_
    simp only [ScopeStack.modifyVariable, ScopeStack.modifyAt, hinner _ ho, if_false]
    split <;> rfl
  · obtain ⟨ht, hl, -⟩ := ht
    exact (quiet_setField _ _ _ _ c t _ hl).mono fun _ u hu => ⟨ht.trans hu.1, hu.2⟩

theorem runs_checkInitializer [phase.Opens] {c : Context} {s : State} {o : ScopeStack} {scope : Scope}
    (h : Live c s (o.cons scope)) (owner : DeclRef) (kind : NamedKind) (name : Ident)
    (registered : Option Value) (value : Value) (span : Span) :
    Runs (checkInitializer owner kind name registered value span) c s fun _ s' =>
      Steps c phase s s' ∧ Live c s' (o.cons scope) := by
  unfold checkInitializer
  split
  · exact runs_refineField h _ _ _ _
  · exact quiet_checkType _ _ _ _ c s _ h
  · exact .pure ⟨.refl, h⟩

theorem runs_checkInitializers [phase.Opens] {c : Context} {s : State} {o : ScopeStack} {scope : Scope}
    (h : Live c s (o.cons scope)) (owner : DeclRef) (kind : NamedKind) (names : List Ident)
    (registered : List (Option Value)) (values : List (Value × Span)) :
    Runs (checkInitializers owner kind names registered values) c s fun _ s' =>
      Steps c phase s s' ∧ Live c s' (o.cons scope) :=
  .forM (I := fun t => Steps c phase s t ∧ Live c t (o.cons scope)) _ ⟨.refl, h⟩
    fun _ _ _ ⟨ht, hl⟩ => (runs_checkInitializer hl _ _ _ _ _ _).mono
      fun _ _ ⟨hu, hl'⟩ => ⟨ht.trans hu, hl'⟩

theorem quiet_checkFieldsInitialized [phase.ChecksFields] (span : Span) :
    Quiet phase (checkFieldsInitialized span) :=
  quiet_scopes.bind fun _ => .forM _ fun _ => quiet_alert _ (phase.reports_uninitializedField _)

theorem quiet_methodSignature [phase.Opens] (members : Members) (name : Ident) (generics : List Ident)
    (params : List Param) (returns : List TypeExpr) :
    Quiet phase (methodSignature members name generics params returns) := by
  unfold methodSignature
  split
  · split
    · exact .pure _
    · exact quiet_resolveSignature _ _ _
  · exact quiet_resolveSignature _ _ _

theorem quiet_walkedSignature [phase.Opens] (entity : EntityInfo) (seen : List LifecycleKind)
    (kind : LifecycleKind) (generics : List Ident) (params : List Param)
    (returns : List TypeExpr) :
    Quiet phase (walkedSignature entity seen kind generics params returns) := by
  unfold walkedSignature
  split
  · split
    · exact (quiet_resolveSignature _ _ _).bind fun _ => .pure _
    · exact .pure _
  · exact (quiet_resolveSignature _ _ _).bind fun _ => .pure _

theorem quiet_bindParams [phase.Binds] (params : List Param) (types : List Ty) :
    Quiet phase (bindParams params types) :=
  .forM _ fun _ => quiet_declare _ _

/-! ## Around the recursion -/

theorem quiet_alwaysLeaves : Quiet phase alwaysLeaves := quiet_scopes.bind fun _ => .pure _

theorem quiet_elementType (reference : Option Ty) (got : Ty) (span : Span) :
    Quiet phase (elementType reference got span) := by
  unfold elementType
  split
  · exact .pure _
  · exact .guard (quiet_report _ _ rfl) fun _ => .pure _

theorem quiet_checkKnown (isEmpty : Bool) (hint : Option Ty) (span : Span) :
    Quiet phase (checkKnown isEmpty hint span) := by
  unfold checkKnown
  split
  · exact quiet_report _ _ rfl
  · exact .pure _

theorem quiet_matchValue (arms : ArmCount) (closed : Option Scope) (span : Span) :
    Quiet .checking (matchValue arms closed span) := by
  unfold matchValue
  dsimp only
  refine .guard (quiet_report _ _ rfl) fun _ => .guard (quiet_report _ _ rfl) fun _ =>
    .guard (quiet_report _ _ rfl) fun _ => ?_
  split <;> exact .pure _

theorem quiet_repeatType (iterator : Expr) (value : Value) :
    Quiet phase (repeatType iterator value) := by
  unfold repeatType
  dsimp only
  split
  · exact .pure _
  · exact .bind (quiet_report _ _ rfl) fun _ => .pure _

theorem quiet_iterated (iterator : Expr) (value : Value) :
    Quiet phase (iterated iterator value) := by
  unfold iterated
  split
  · exact .pure _
  · exact .pure _
  · exact .pure _
  · exact .bind (quiet_report _ _ rfl) fun _ => .pure _

theorem quiet_forKey (key : Option Ident) (span : Span) : Quiet phase (forKey key span) := by
  intro c s o h
  unfold forKey
  split
  · exact .pure ⟨.refl, h⟩
  · refine runs_get.bind fun a t ⟨ha, ht⟩ => ?_
    subst ha ht
    refine (runs_set _).bind fun _ u hu => .pure ?_
    subst hu
    exact ⟨.single (.invent _ "key"), h.of_envs_eq rfl⟩

theorem quiet_destroyer? (target : Expr) (value : Value) :
    Quiet phase (destroyer? target value) := by
  unfold destroyer?
  split
  · exact (quiet_entity? _).bind fun _ => .pure _
  · exact .pure _
  · exact .bind (quiet_alert _ rfl) fun _ => .pure _

theorem quiet_ownClass? (name : Ident) : Quiet phase (ownClass? name) := by
  unfold ownClass?
  refine quiet_environment.bind fun env => ?_
  split
  · exact (quiet_fail _ _).bind fun _ => .pure _
  · exact .pure _

theorem quiet_ownEntity? (name : Ident) : Quiet phase (ownEntity? name) := by
  unfold ownEntity?
  refine quiet_environment.bind fun env => ?_
  split
  · exact (quiet_fail _ _).bind fun _ => .pure _
  · exact .pure _

end HybroidSema.Check
