import HybroidSema.Declare.Pass
import HybroidSema.Proofs.Quiet

/-!
# What registering declarations does

The passes over the top level of a program are quiet checks, each of its own phase. Names are
claimed first, and only then are the tables of declared types filled; a claim is never taken back.

The lemmas follow the modules that define the passes: names, aliases, members, and the pass as a
whole.
-/

namespace HybroidSema.Declare

open Check

variable {phase : Phase}

/-! ## Claiming names -/

theorem quiet_ownsName (name : Ident) : Quiet phase (ownsName name) :=
  quiet_environment.bind fun _ => .pure _

theorem quiet_ownRef (name : Ident) : Quiet phase (ownRef name) :=
  quiet_ownId.bind fun _ => .pure _

theorem quiet_distinctFields (fields : List Ident) (seen : List String) :
    Quiet phase (distinctFields fields seen) := by
  induction fields generalizing seen with
  | nil => exact .pure _
  | cons field rest ih =>
    unfold distinctFields
    split
    · exact .bind (quiet_report _ _ rfl) fun _ => ih _
    · exact ih _

/-- A change of a table of declared types. -/
theorem runs_editTables {c : Context} {s : State} {o : ScopeStack} (h : Live c s o)
    {f : Environment → Environment} (hedit : Edit c phase s f)
    (hf : ∀ env, (f env).state = env.state ∧ (f env).scopes = env.scopes ∧
      (f env).requirements = env.requirements) :
    Runs (modifyEnvironment f) c s fun _ s' => Steps c phase s s' ∧ Live c s' o := by
  refine (runs_modifyEnvironment h f).mono fun _ t ht => ?_
  subst ht
  refine ⟨.single (.edit s f hedit (.inr fun env => (hf env).2.2)),
    h.modifyOwn fun env _ ho => ⟨(hf env).1, ?_⟩⟩
  rw [(hf env).2.1, ho]

theorem quiet_editTables {f : Environment → Environment} (hedit : ∀ c s, Edit c phase s f)
    (hf : ∀ env, (f env).state = env.state ∧ (f env).scopes = env.scopes ∧
      (f env).requirements = env.requirements) :
    Quiet phase (modifyEnvironment f) :=
  fun c s _ h => runs_editTables h (hedit c s) hf

/-- A check that is quiet wherever the name is free. -/
def QuietIfFree (name : String) (m : Check α) : Prop :=
  ∀ c s o, Live c s o → s.IsFree c name →
    Runs m c s fun _ s' => Steps c .claiming s s' ∧ Live c s' o

/-- What only looks leaves a name free. -/
theorem Steps.isFree {c : Context} {s s' : State} {o : ScopeStack} {name : String} (h : Live c s o)
    (hsteps : Steps c .looking s s') (hfree : s.IsFree c name) : s'.IsFree c name := by
  obtain ⟨env, hown, -, -⟩ := h.own
  have hkept := Steps.own_keeps (I := fun env => env.declaredSpan? name = none) h hsteps
    (fun _ _ env hedit _ hnone => by
      cases hedit with
      | scopes => exact hnone
      | require =>
        simp only [Environment.require]
        split <;> exact hnone
      | addImport _ hlooking | setField _ _ _ _ hlooking => exact absurd rfl hlooking
      | claimClass _ _ hphase | claimEntity _ _ hphase | claimEnum _ _ hphase
      | claimAlias _ _ hphase | fillClass _ _ hphase | fillEntity _ _ hphase
      | fillAlias _ _ hphase => cases hphase)
    hown (hfree env hown)
  obtain ⟨env', hown', hnone⟩ := hkept
  intro other hother
  obtain rfl := Option.some.inj (hown'.symm.trans hother)
  exact hnone

theorem QuietIfFree.bind {name : String} {m : Check α} {f : α → Check β}
    (hm : ∀ phase, Quiet phase m) (hf : ∀ a, QuietIfFree name (f a)) :
    QuietIfFree name (m >>= f) := by
  intro c s o h hfree
  refine ((hm .claiming c s o h).and (hm .looking c s o h)).bind
    fun a t ⟨⟨ht, hl⟩, hlooks, _⟩ => ?_
  exact (hf a c t o hl (Steps.isFree h hlooks hfree)).mono fun _ u ⟨hu, hl'⟩ => ⟨ht.trans hu, hl'⟩

/-- A name is claimed where it is free. -/
theorem quiet_claim_bind {name : Ident} {what : String} {g : Bool → Check β}
    (hfree : QuietIfFree name.name (g true)) (htaken : Quiet .claiming (g false)) :
    Quiet .claiming (claim name what >>= g) := by
  intro c s o h
  unfold claim
  rw [bind_assoc]
  refine (runs_environment h).bind fun env t ⟨ht, hown, _⟩ => ?_
  subst ht
  split
  · next hnone =>
    have hclaimed : Runs (pure true) c t fun claimed s' => claimed = true ∧ s' = t :=
      .pure ⟨rfl, rfl⟩
    refine hclaimed.bind ?_
    rintro _ _ ⟨rfl, rfl⟩
    refine hfree c _ o h fun other hother => ?_
    obtain rfl := Option.some.inj (hown.symm.trans hother)
    exact hnone
  · rw [bind_assoc]
    exact ((quiet_alert _ rfl).bind fun _ => htaken) c t o h

theorem quiet_claimClass (decl : ClassDecl) : Quiet .claiming (claimClass decl) := by
  refine quiet_claim_bind (.bind (fun _ => quiet_ownRef _) fun ref c s o h hfree => ?_) (.pure _)
  exact (runs_editTables h (.claimClass _ _ rfl hfree) fun _ => ⟨rfl, rfl, rfl⟩).bind
    fun _ _ ht => .pure ht

theorem quiet_claimEntity (decl : EntityDecl) : Quiet .claiming (claimEntity decl) := by
  refine quiet_claim_bind (.bind (fun _ => quiet_ownRef _) fun ref c s o h hfree => ?_) (.pure _)
  exact (runs_editTables h (.claimEntity _ _ rfl hfree) fun _ => ⟨rfl, rfl, rfl⟩).bind
    fun _ _ ht => .pure ht

theorem quiet_claimEnum (decl : EnumDecl) : Quiet .claiming (claimEnum decl) := by
  have hadd : QuietIfFree decl.name.name (do
      let fields ← distinctFields decl.fields []
      let ref ← ownRef decl.name
      let info : EnumInfo := ⟨ref, decl.name.span, decl.isPub, fields⟩
      modifyEnvironment fun env => { env with enums := env.enums.insert decl.name.name info }
      return 1) := by
    refine .bind (fun _ => quiet_distinctFields _ _) fun fields => .bind (fun _ => quiet_ownRef _)
      fun ref c s o h hfree => ?_
    exact (runs_editTables h (.claimEnum _ _ rfl hfree) fun _ => ⟨rfl, rfl, rfl⟩).bind
      fun _ _ ht => .pure ht
  refine quiet_claim_bind ?_ (.pure _)
  rw [if_pos rfl]
  split
  · exact .bind (fun _ => quiet_report (.emptyEnum _) _ rfl) fun _ => hadd
  · exact hadd

theorem quiet_claimAlias (decl : AliasDecl) : Quiet .claiming (claimAlias decl) := by
  refine quiet_claim_bind (fun c s o h hfree => ?_) (.pure _)
  exact (runs_editTables h (.claimAlias _ _ rfl hfree) fun _ => ⟨rfl, rfl, rfl⟩).bind
    fun _ _ ht => .pure ht

theorem quiet_claimType (stmt : Stmt) : Quiet .claiming (claimType stmt) := by
  cases stmt with
  | classDecl decl => exact quiet_claimClass decl
  | entityDecl decl => exact quiet_claimEntity decl
  | enumDecl decl => exact quiet_claimEnum decl
  | aliasDecl decl => exact quiet_claimAlias decl
  | _ => exact .pure _

/-! ## Aliases -/

theorem quiet_setAlias (name : String) (ty : Ty) : Quiet .resolving (setAlias name ty) :=
  quiet_editTables (fun _ _ => .fillAlias _ _ rfl) fun _ => ⟨rfl, rfl, rfl⟩

theorem quiet_resolveAlias (decls : Table AliasDecl) (depth : Nat) (visiting : List String)
    (name : String) (settled : List String) :
    Quiet .resolving (resolveAlias decls depth visiting name settled) := by
  induction depth generalizing visiting name settled with
  | zero =>
    unfold resolveAlias
    split
    · exact .pure _
    · split
      · exact .pure _
      · split
        · exact .bind (quiet_report _ _ rfl) fun _ => .pure _
        · exact .pure _
  | succ depth ih =>
    unfold resolveAlias
    split
    · exact .pure _
    · split
      · exact .pure _
      · split
        · exact .bind (quiet_report _ _ rfl) fun _ => .pure _
        · refine (Quiet.foldlM (fun _ _ => ih _ _ _) _ _).bind fun settled => ?_
          split
          · exact .pure _
          · exact (quiet_resolveType _).bind fun _ => (quiet_setAlias _ _).bind fun _ => .pure _

theorem quiet_ownAliases (decls : List AliasDecl) : Quiet phase (ownAliases decls) := by
  induction decls with
  | nil => exact .pure _
  | cons decl rest ih => exact (quiet_ownsName _).bind fun _ => ih.bind fun _ => .pure _

theorem quiet_resolveAliases (program : Program) : Quiet .resolving (resolveAliases program) :=
  (quiet_ownAliases _).bind fun _ =>
    (Quiet.foldlM (fun _ _ => quiet_resolveAlias _ _ _ _ _) _ _).bind fun _ => .pure _

/-! ## Members -/

theorem quiet_memberClash (name : Ident) (what : String) (first : Span) :
    Quiet phase (memberClash name what first) := quiet_alert _ rfl

theorem quiet_registerNames (decl : VariableDecl) (declared : Option Ty) (index : Nat)
    (names : List Ident) (members : Members) :
    Quiet phase (registerNames decl declared index names members) := by
  induction names generalizing index members with
  | nil => exact .pure _
  | cons name rest ih =>
    unfold registerNames
    dsimp only
    split
    · exact ih _ _
    · exact (quiet_memberClash _ _ _).bind fun _ => ih _ _

theorem quiet_registerFields (decls : List VariableDecl) (members : Members) :
    Quiet phase (registerFields decls members) := by
  induction decls generalizing members with
  | nil => exact .pure _
  | cons decl rest ih =>
    exact (quiet_resolveType? _).bind fun _ => (quiet_registerNames _ _ _ _ _).bind fun _ => ih _

theorem quiet_registerMethods [phase.Opens] (decls : List FunctionDecl) (members : Members) :
    Quiet phase (registerMethods decls members) := by
  induction decls generalizing members with
  | nil => exact .pure _
  | cons decl rest ih =>
    unfold registerMethods
    refine (quiet_resolveSignature _ _ _).bind fun signature => ?_
    split
    · exact (ih _).bind fun _ => .pure _
    · exact (quiet_memberClash _ _ _).bind fun _ => ih _

theorem quiet_registerConstructor [phase.Opens] (decl : ClassDecl) :
    Quiet phase (registerConstructor decl) := by
  unfold registerConstructor
  split
  · exact (quiet_resolveSignature _ _ _).bind fun _ => .pure _
  · exact .bind (quiet_report _ _ rfl) fun _ => .pure _

theorem quiet_registerClass (decl : ClassDecl) : Quiet .declaring (registerClass decl) := by
  unfold registerClass
  refine (quiet_ownsName _).bind fun owns => ?_
  split
  · refine (quiet_registerFields _ _).bind fun _ => (quiet_registerMethods _ _).bind fun _ =>
      (quiet_registerConstructor _).bind fun _ => ?_
    exact (quiet_editTables (fun _ _ => .fillClass _ _ rfl (by exact fun _ => rfl)) fun _ => ⟨rfl, rfl, rfl⟩).bind
      fun _ => .pure _
  · exact .pure _

theorem quiet_lifecycleSignature [phase.Opens] (decl : LifecycleDecl) :
    Quiet phase (lifecycleSignature decl) := by
  unfold lifecycleSignature
  refine (quiet_resolveSignature _ _ _).bind fun signature => ?_
  dsimp only
  split
  · exact .guard (quiet_report _ _ rfl) fun _ => .guard (quiet_report _ _ rfl) fun _ => .pure _
  · exact .guard (quiet_report _ _ rfl) fun _ => .pure _

theorem quiet_registerLifecycles [phase.Opens] [phase.Registers] (entity : Ident) (decls : List LifecycleDecl)
    (first : List Lifecycle) : Quiet phase (registerLifecycles entity decls first) := by
  induction decls generalizing first with
  | nil => exact .pure _
  | cons decl rest ih =>
    unfold registerLifecycles
    split
    · exact .bind (quiet_alert _ (phase.reports_multipleEntityFunctions _ _)) fun _ => ih _
    · exact (quiet_lifecycleSignature _).bind fun _ => ih _

theorem quiet_requireLifecycle [phase.Registers] (entity : Ident) (kind : LifecycleKind)
    (registered : List Lifecycle) : Quiet phase (requireLifecycle entity kind registered) := by
  unfold requireLifecycle
  split
  · exact quiet_report _ _ (phase.reports_missingEntityFunction _ _)
  · exact .pure _

theorem quiet_registerEntity (decl : EntityDecl) : Quiet .declaring (registerEntity decl) := by
  unfold registerEntity
  refine (quiet_ownsName _).bind fun owns => ?_
  split
  · refine (quiet_registerFields _ _).bind fun _ => (quiet_registerMethods _ _).bind fun _ =>
      (quiet_registerLifecycles _ _ _).bind fun _ => (quiet_requireLifecycle _ _ _).bind fun _ =>
        (quiet_requireLifecycle _ _ _).bind fun _ => ?_
    exact (quiet_editTables (fun _ _ => .fillEntity _ _ rfl (by exact fun _ => rfl)) fun _ => ⟨rfl, rfl, rfl⟩).bind
      fun _ => .pure _
  · exact .pure _

/-! ## The pass -/

theorem quiet_registerMembers (stmt : Stmt) : Quiet .declaring (registerMembers stmt) := by
  cases stmt with
  | classDecl decl => exact quiet_registerClass decl
  | entityDecl decl => exact quiet_registerEntity decl
  | _ => exact .pure _

theorem quiet_registerFunction [phase.Binds] (stmt : Stmt) :
    Quiet phase (registerFunction stmt) := by
  cases stmt with
  | function decl =>
    refine (quiet_resolveSignature _ _ _).bind fun signature => ?_
    refine .scopes_bind fun c s o stack h ho hown => ?_
    split
    · next scopes hd =>
      exact (runs_setScopes h hown ((ScopeStack.outline_declareRoot hd).trans ho)
        (ScopeStack.keepsRoot_declareRoot hd)).bind fun _ _ ht => .pure ht
    · exact (quiet_reportScopeError _ _ _).bind (fun _ => .pure _) c s o h
  | _ => exact .pure _

theorem quiet_countEach {step : Stmt → Check Nat} (h : ∀ stmt, Quiet phase (step stmt))
    (program : Program) : Quiet phase (countEach step program) := by
  induction program with
  | nil => exact .pure _
  | cons stmt rest ih => exact (h stmt).bind fun _ => ih.bind fun _ => .pure _

theorem quiet_importAll (program : Program) : Quiet .importing (importAll program) :=
  .forM _ fun _ => quiet_importEnvironment _

theorem quiet_walkImports (program : Program) : Quiet phase (walkImports program) :=
  .forM _ fun _ => quiet_walkImport _

/-- What is registered after the type names are claimed. -/
def fillIn (program : Program) (types : Nat) : Check Counts := do
  resolveAliases program
  let members ← countEach registerMembers program
  let functions ← countEach registerFunction program
  walkImports program
  return { types := types, functions := members + functions }

theorem program_eq (program : Program) :
    Declare.program program = importAll program >>= fun _ =>
      countEach claimType program >>= fillIn program := rfl

/-- Aliases are resolved, members are registered, and then functions are bound. -/
theorem runs_fillIn {c : Context} {s : State} {o : ScopeStack} (h : Live c s o)
    (program : Program) (types : Nat) :
    Runs (fillIn program types) c s fun _ s' => ∃ s₁ s₂, Steps c .resolving s s₁ ∧
      Steps c .declaring s₁ s₂ ∧ Steps c .binding s₂ s' ∧ Live c s' o := by
  refine (quiet_resolveAliases program c s o h).bind fun _ s₁ ⟨hs₁, hl₁⟩ => ?_
  refine (quiet_countEach quiet_registerMembers program c s₁ o hl₁).bind
    fun members s₂ ⟨hs₂, hl₂⟩ => ?_
  have hrest : Quiet .binding (do
      let functions ← countEach registerFunction program
      walkImports program
      return ({ types := types, functions := members + functions } : Counts)) :=
    (quiet_countEach quiet_registerFunction program).bind fun _ =>
      (quiet_walkImports program).bind fun _ => .pure _
  exact (hrest c s₂ o hl₂).mono fun _ _ ⟨hs₃, hl₃⟩ => ⟨s₁, s₂, hs₁, hs₂, hs₃, hl₃⟩

end HybroidSema.Declare
