import HybroidSema.Proofs.Declarations
import HybroidSema.Proofs.SoundParts

/-!
# Registering declarations cannot end the build

Every step of the registration of a program keeps states good: a claimed class, entity or enum is
declared from then on, and the members, signatures and aliases that are filled in later are made
of declared types.
-/

namespace HybroidSema.Declare

open Check

variable {k : Demands} {c : Context} {r : Registry} {d : List Bool}

/-! ## Imports -/

theorem sound_importEnvironment (stmt : UseStmt) :
    Sound k c r d (importEnvironment stmt) fun _ _ => True := by
  refine (sound_useTarget? stmt).bind fun target r₁ _ htarget => ?_
  split
  · refine (sound_require _ _).bind fun allowed r₂ h₂ _ => ?_
    split
    · exact sound_addImport (h₂.named (htarget _ rfl))
    · exact .pure fun _ _ => trivial
  · exact .pure fun _ _ => trivial

theorem sound_walkImport (stmt : UseStmt) : Sound k c r d (walkImport stmt) fun _ _ => True := by
  refine sound_registry.bind fun _ r₁ _ _ => ?_
  split
  · refine sound_environment.bind fun _ r₂ _ _ => ?_
    split
    · exact sound_ensureWalked _ _
    · exact .pure fun _ _ => trivial
  · exact .pure fun _ _ => trivial

theorem sound_importAll (program : Program) : Sound k c r d (importAll program) fun _ _ => True :=
  .forM (P := fun _ => True) (fun _ _ => trivial) fun stmt _ _ _ => sound_importEnvironment stmt

theorem sound_walkImports (program : Program) :
    Sound k c r d (walkImports program) fun _ _ => True :=
  .forM (P := fun _ => True) (fun _ _ => trivial) fun stmt _ _ _ => sound_walkImport stmt

/-! ## Names -/

theorem sound_claim (name : Ident) (what : String) :
    Sound k c r d (claim name what) fun _ _ => True := by
  refine sound_environment.bind fun _ r₁ _ _ => ?_
  split
  · exact .pure fun _ _ => trivial
  · exact (sound_alert _ fun _ => rfl).bind fun _ _ _ _ => .pure fun _ _ => trivial

theorem sound_ownsName (name : Ident) : Sound k c r d (ownsName name) fun _ _ => True :=
  sound_environment.bind fun _ _ _ _ => .pure fun _ _ => trivial

theorem sound_ownRef (name : Ident) :
    Sound k c r d (ownRef name) fun _ ref => ref = ⟨c.env, name.name⟩ :=
  sound_ownId.bind fun _ _ _ h => .pure fun _ _ => by rw [h]

theorem sound_distinctFields (fields : List Ident) (seen : List String) :
    Sound k c r d (distinctFields fields seen) fun _ _ => True := by
  induction fields generalizing r seen with
  | nil => exact .pure fun _ _ => trivial
  | cons field rest ih =>
    unfold distinctFields
    split
    · exact (sound_report _ _ fun _ => rfl).bind fun _ _ _ _ => ih _
    · exact ih _

theorem sound_claimClass (decl : ClassDecl) : Sound k c r d (claimClass decl) fun _ _ => True := by
  refine (sound_claim _ _).bind fun claimed r₁ _ _ => ?_
  split
  · refine (sound_ownRef _).bind fun ref r₂ _ href => ?_
    subst href
    refine Sound.bind (sound_modifyEnvironment (R := fun _ => True)
      fun r' env _ ⟨_, _, hv, hd⟩ => ⟨rfl, hd, ?_, fun hext hget => ⟨?_, trivial⟩⟩) fun _ _ _ _ =>
        .pure fun _ _ => trivial
    · exact ⟨rfl, fun _ h => Table.isSome_get?_insert _ _ h, fun _ h => h, fun _ h => h⟩
    · have hold := hv.mono hext
      refine ⟨hold.scopes, hold.classes.insert _ ⟨?_, Members.fine_empty, nofun⟩, hold.entities,
        hold.enums, hold.aliases, hold.imports⟩
      exact Registry.hasClass_of_get? hget (by rw [Table.get?_insert, if_pos rfl])
  · exact .pure fun _ _ => trivial

theorem sound_claimEntity (decl : EntityDecl) :
    Sound k c r d (claimEntity decl) fun _ _ => True := by
  refine (sound_claim _ _).bind fun claimed r₁ _ _ => ?_
  split
  · refine (sound_ownRef _).bind fun ref r₂ _ href => ?_
    subst href
    refine Sound.bind (sound_modifyEnvironment (R := fun _ => True)
      fun r' env _ ⟨_, _, hv, hd⟩ => ⟨rfl, hd, ?_, fun hext hget => ⟨?_, trivial⟩⟩) fun _ _ _ _ =>
        .pure fun _ _ => trivial
    · exact ⟨rfl, fun _ h => h, fun _ h => Table.isSome_get?_insert _ _ h, fun _ h => h⟩
    · have hold := hv.mono hext
      refine ⟨hold.scopes, hold.classes, hold.entities.insert _ ⟨?_, Members.fine_empty, nofun,
        nofun, nofun⟩, hold.enums, hold.aliases, hold.imports⟩
      exact Registry.hasEntity_of_get? hget (by rw [Table.get?_insert, if_pos rfl])
  · exact .pure fun _ _ => trivial

theorem sound_claimEnum (decl : EnumDecl) : Sound k c r d (claimEnum decl) fun _ _ => True := by
  refine (sound_claim _ _).bind fun claimed r₁ _ _ => ?_
  split
  · refine .guard (sound_report _ _ fun _ => rfl) fun r₂ _ => (sound_distinctFields _ _).bind
      fun fields r₃ _ _ => (sound_ownRef _).bind fun ref r₄ _ href => ?_
    subst href
    refine Sound.bind (sound_modifyEnvironment (R := fun _ => True)
      fun r' env _ ⟨_, _, hv, hd⟩ => ⟨rfl, hd, ?_, fun hext hget => ⟨?_, trivial⟩⟩) fun _ _ _ _ =>
        .pure fun _ _ => trivial
    · exact ⟨rfl, fun _ h => h, fun _ h => h, fun _ h => Table.isSome_get?_insert _ _ h⟩
    · have hold := hv.mono hext
      refine ⟨hold.scopes, hold.classes, hold.entities, hold.enums.insert _ ?_, hold.aliases,
        hold.imports⟩
      exact Registry.hasEnum_of_get? hget (by rw [Table.get?_insert, if_pos rfl])
  · exact .pure fun _ _ => trivial

theorem sound_claimAlias (decl : AliasDecl) : Sound k c r d (claimAlias decl) fun _ _ => True := by
  refine (sound_claim _ _).bind fun claimed r₁ _ _ => ?_
  split
  · refine Sound.bind (sound_modifyEnvironment' fun r' env _ ⟨_, _, hv, hd⟩ =>
      ⟨rfl, hd, .of_eq rfl rfl rfl rfl, ?_⟩) fun _ _ _ _ => .pure fun _ _ => trivial
    exact ⟨hv.scopes, hv.classes, hv.entities, hv.enums, hv.aliases.insert _ trivial,
      hv.imports⟩
  · exact .pure fun _ _ => trivial

theorem sound_claimType (stmt : Stmt) : Sound k c r d (claimType stmt) fun _ _ => True := by
  unfold claimType
  split
  · exact sound_claimClass _
  · exact sound_claimEntity _
  · exact sound_claimEnum _
  · exact sound_claimAlias _
  · exact .pure fun _ _ => trivial

/-! ## Aliases -/

theorem sound_setAlias (name : String) {ty : Ty} (h : ty.Declared r) :
    Sound k c r d (setAlias name ty) fun _ _ => True := by
  refine sound_modifyEnvironment' fun r' env hr ⟨_, _, hv, hd⟩ =>
    ⟨rfl, hd, .of_eq rfl rfl rfl rfl, ?_⟩
  exact ⟨hv.scopes, hv.classes, hv.entities, hv.enums, hv.aliases.modify _ fun _ _ => h.mono hr,
    hv.imports⟩

theorem sound_foldlM {α ι : Type} {step : α → ι → Check α}
    (h : ∀ a i r', Sound k c r' d (step a i) fun _ _ => True) (items : List ι) (a : α) :
    Sound k c r d (items.foldlM step a) fun _ _ => True := by
  induction items generalizing r a with
  | nil => exact .pure fun _ _ => trivial
  | cons i rest ih => exact (h a i r).bind fun _ _ _ _ => ih _

theorem sound_resolveAlias (decls : Table AliasDecl) (depth : Nat) (visiting : List String)
    (name : String) (settled : List String) (r : Registry) :
    Sound k c r d (resolveAlias decls depth visiting name settled) fun _ _ => True := by
  induction depth generalizing r visiting name settled with
  | zero =>
    unfold resolveAlias
    split
    · exact .pure fun _ _ => trivial
    · split
      · exact .pure fun _ _ => trivial
      · split
        · exact (sound_report _ _ fun _ => rfl).bind fun _ _ _ _ => .pure fun _ _ => trivial
        · exact .pure fun _ _ => trivial
  | succ depth ih =>
    unfold resolveAlias
    split
    · exact .pure fun _ _ => trivial
    · split
      · exact .pure fun _ _ => trivial
      · split
        · exact (sound_report _ _ fun _ => rfl).bind fun _ _ _ _ => .pure fun _ _ => trivial
        · refine (sound_foldlM (fun settled mentioned r' => ih _ _ _ r') _ _).bind
            fun settled r₁ _ _ => ?_
          split
          · exact .pure fun _ _ => trivial
          · exact (sound_resolveType _).bind fun _ _ _ h => (sound_setAlias _ h).bind
              fun _ _ _ _ => .pure fun _ _ => trivial

theorem sound_ownAliases (decls : List AliasDecl) :
    Sound k c r d (ownAliases decls) fun _ _ => True := by
  induction decls generalizing r with
  | nil => exact .pure fun _ _ => trivial
  | cons decl rest ih =>
    exact (sound_ownsName _).bind fun _ _ _ _ => ih.bind fun _ _ _ _ => .pure fun _ _ => trivial

theorem sound_resolveAliases (program : Program) :
    Sound k c r d (resolveAliases program) fun _ _ => True :=
  (sound_ownAliases _).bind fun _ _ _ _ => (sound_foldlM (fun _ _ r' =>
    sound_resolveAlias _ _ _ _ _ r') _ _).bind fun _ _ _ _ => .pure fun _ _ => trivial

/-! ## Members -/

theorem fine_fieldValue (decl : VariableDecl) {declared : Option Ty}
    (h : ∀ ty ∈ declared, ty.Declared r) (index : Nat) :
    (fieldValue decl declared index).Fine k.plain r := by
  have hunknown : Value.unknown.Fine k.plain r := ⟨trivial, fun _ => rfl⟩
  unfold fieldValue
  split
  · next ty => exact Ty.fine_toValue (h ty rfl)
  · split
    · next lit _ =>
      split
      · exact Value.fine_forgetLiteral lit.fine_toValue
      · exact hunknown
    · exact hunknown

theorem sound_registerNames (decl : VariableDecl) {declared : Option Ty}
    (h : ∀ ty ∈ declared, ty.Declared r) (index : Nat) (names : List Ident) {members : Members}
    (hm : members.Fine k.plain r) :
    Sound k c r d (registerNames decl declared index names members) fun r' m => m.Fine k.plain r' := by
  induction names generalizing r index members with
  | nil => exact .pure fun _ hr => hm.mono hr
  | cons name rest ih =>
    unfold registerNames
    dsimp only
    split
    · next members' hadd =>
      refine ih h _ (hm.addField ?_ hadd)
      exact ⟨fine_fieldValue decl h index, nofun⟩
    · exact (sound_alert _ fun _ => rfl).bind fun _ r₁ h₁ _ =>
        ih (fun ty hty => (h ty hty).mono h₁) _ (hm.mono h₁)

theorem sound_registerFields (decls : List VariableDecl) {members : Members}
    (hm : members.Fine k.plain r) :
    Sound k c r d (registerFields decls members) fun r' m => m.Fine k.plain r' := by
  induction decls generalizing r members with
  | nil => exact .pure fun _ hr => hm.mono hr
  | cons decl rest ih =>
    exact (sound_resolveType? _).bind fun _ _ h₁ h => (sound_registerNames decl h 0 _
      (hm.mono h₁)).bind fun _ _ _ hm => ih hm

theorem sound_registerMethods (decls : List FunctionDecl) {members : Members}
    (hm : members.Fine k.plain r) :
    Sound k c r d (registerMethods decls members) fun r' p => p.1.Fine k.plain r' := by
  induction decls generalizing r members with
  | nil => exact .pure fun _ hr => hm.mono hr
  | cons decl rest ih =>
    unfold registerMethods
    refine (sound_resolveSignature _ _ _).bind fun signature r₁ h₁ hs => ?_
    split
    · next members' hadd =>
      exact (ih ((hm.mono h₁).addMethod hs hadd)).bind fun _ _ _ h => .pure fun _ hr => h.mono hr
    · exact (sound_alert _ fun _ => rfl).bind fun _ r₂ h₂ _ => ih ((hm.mono h₁).mono h₂)

theorem sound_registerConstructor (decl : ClassDecl) :
    Sound k c r d (registerConstructor decl) fun r' found =>
      ∀ signature ∈ found, signature.Declared r' := by
  unfold registerConstructor
  split
  · refine (sound_resolveSignature _ _ _).bind fun signature r₁ _ h => .pure fun _ hr s hs => ?_
    cases hs
    exact h.mono hr
  · exact (sound_report _ _ fun _ => rfl).bind fun _ _ _ _ => .pure fun _ _ => by simp

theorem sound_registerClass (decl : ClassDecl) :
    Sound k c r d (registerClass decl) fun _ _ => True := by
  refine (sound_ownsName _).bind fun owns r₁ _ _ => ?_
  split
  · refine (sound_registerFields _ Members.fine_empty).bind fun members r₂ _ hm =>
      (sound_registerMethods _ hm).bind fun p r₃ _ hp =>
        (sound_registerConstructor decl).bind fun constructor r₄ h₄ hc => ?_
    refine Sound.bind (sound_modifyEnvironment' fun r' env hr ⟨_, _, hv, hd⟩ =>
      ⟨rfl, hd, ?_, ?_⟩) fun _ _ _ _ => .pure fun _ _ => trivial
    · exact ⟨rfl, fun _ h => Table.isSome_get?_modify _ _ h, fun _ h => h, fun _ h => h⟩
    · refine ⟨hv.scopes, hv.classes.modify _ fun info hi => ?_, hv.entities, hv.enums,
        hv.aliases, hv.imports⟩
      exact ⟨hi.ty, (hp.mono h₄).mono hr, fun s hs => (hc s hs).mono hr⟩
  · exact .pure fun _ _ => trivial

theorem sound_lifecycleSignature (decl : LifecycleDecl) :
    Sound k c r d (lifecycleSignature decl) fun r' s => s.Declared r' := by
  refine (sound_resolveSignature _ _ _).bind fun signature r₁ _ hs => ?_
  split
  · exact .guard (sound_report _ _ fun _ => rfl) fun _ h₂ => .guard (sound_report _ _ fun _ => rfl) fun _ h₃ =>
      .pure fun _ hr => ((hs.mono h₂).mono h₃).mono hr
  · exact .guard (sound_report _ _ fun _ => rfl) fun _ h₂ => .pure fun _ hr => (hs.mono h₂).mono hr

theorem sound_registerLifecycles (entity : Ident) (decls : List LifecycleDecl)
    {first : List Lifecycle} (h : ∀ l ∈ first, l.signature.Declared r) :
    Sound k c r d (registerLifecycles entity decls first) fun r' registered =>
      ∀ l ∈ registered, l.signature.Declared r' := by
  induction decls generalizing r first with
  | nil => exact .pure fun _ hr l hl => (h l hl).mono hr
  | cons decl rest ih =>
    unfold registerLifecycles
    split
    · exact (sound_alert _ fun _ => rfl).bind fun _ _ h₁ _ => ih fun l hl => (h l hl).mono h₁
    · refine (sound_lifecycleSignature decl).bind fun signature r₁ h₁ hs => ih fun l hl => ?_
      rcases List.mem_append.1 hl with hl | hl
      · exact (h l hl).mono h₁
      · rw [List.mem_singleton.1 hl]
        exact hs

theorem declared_lifecycleOf? {registered : List Lifecycle}
    (h : ∀ l ∈ registered, l.signature.Declared r) (kind : LifecycleKind) :
    ∀ s ∈ lifecycleOf? kind registered, s.Declared r := by
  intro s hs
  obtain ⟨l, hl, rfl⟩ := Option.map_eq_some_iff.1 hs
  exact h l (List.mem_of_find?_eq_some hl)

theorem sound_requireLifecycle (entity : Ident) (kind : LifecycleKind)
    (registered : List Lifecycle) :
    Sound k c r d (requireLifecycle entity kind registered) fun _ _ => True := by
  unfold requireLifecycle
  split
  · exact sound_report _ _ fun _ => rfl
  · exact .pure fun _ _ => trivial

theorem sound_registerEntity (decl : EntityDecl) :
    Sound k c r d (registerEntity decl) fun _ _ => True := by
  refine (sound_ownsName _).bind fun owns r₁ _ _ => ?_
  split
  · refine (sound_registerFields _ Members.fine_empty).bind fun members r₂ _ hm =>
      (sound_registerMethods _ hm).bind fun p r₃ _ hp =>
        (sound_registerLifecycles decl.name _ (by simp)).bind fun registered r₄ h₄ hl =>
          (sound_requireLifecycle _ _ _).bind fun _ r₅ h₅ _ =>
            (sound_requireLifecycle _ _ _).bind fun _ r₆ h₆ _ => ?_
    have hl₆ : ∀ l ∈ registered, l.signature.Declared r₆ := fun l hmem =>
      ((hl l hmem).mono h₅).mono h₆
    have hm₆ : p.1.Fine k.plain r₆ := hp.mono ((h₄.trans h₅).trans h₆)
    refine Sound.bind (sound_modifyEnvironment' fun r' env hr ⟨_, _, hv, hd⟩ =>
      ⟨rfl, hd, ?_, ?_⟩) fun _ _ _ _ => .pure fun _ _ => trivial
    · exact ⟨rfl, fun _ h => h, fun _ h => Table.isSome_get?_modify _ _ h, fun _ h => h⟩
    · refine ⟨hv.scopes, hv.classes, hv.entities.modify _ fun info hi => ?_, hv.enums,
        hv.aliases, hv.imports⟩
      refine ⟨hi.ty, hm₆.mono hr, fun s hs => (declared_lifecycleOf? hl₆ _ s hs).mono hr,
        fun s hs => (declared_lifecycleOf? hl₆ _ s hs).mono hr, fun callback hmem => ?_⟩
      obtain ⟨l, hfilter, rfl⟩ := List.mem_map.1 hmem
      exact (hl₆ l (List.mem_filter.1 hfilter).1).mono hr
  · exact .pure fun _ _ => trivial

theorem sound_registerMembers (stmt : Stmt) :
    Sound k c r d (registerMembers stmt) fun _ _ => True := by
  unfold registerMembers
  split
  · exact sound_registerClass _
  · exact sound_registerEntity _
  · exact .pure fun _ _ => trivial

/-! ## Functions -/

theorem sound_registerFunction (stmt : Stmt) :
    Sound k c r d (registerFunction stmt) fun _ _ => True := by
  unfold registerFunction
  split
  · refine (sound_resolveSignature _ _ _).bind fun signature r₁ _ hs =>
      sound_scopes.bind fun stack r₂ h₂ hstack => ?_
    split
    · next stack' hdeclare =>
      refine Sound.bind (sound_setScopes (hstack.declareRoot ?_ (fun _ => rfl) hdeclare)) fun _ _ _ _ =>
        .pure fun _ _ => trivial
      exact ⟨⟨Signature.Declared.mono h₂ hs, fun _ => rfl⟩, nofun⟩
    · exact (sound_reportScopeError _ _ _).bind fun _ _ _ _ => .pure fun _ _ => trivial
  · exact .pure fun _ _ => trivial

theorem sound_countEach {step : Stmt → Check Nat}
    (h : ∀ stmt r', Sound k c r' d (step stmt) fun _ _ => True) (program : Program) :
    Sound k c r d (countEach step program) fun _ _ => True := by
  induction program generalizing r with
  | nil => exact .pure fun _ _ => trivial
  | cons stmt rest ih =>
    exact (h stmt r).bind fun _ _ _ _ => ih.bind fun _ _ _ _ => .pure fun _ _ => trivial

theorem sound_fillIn (program : Program) (types : Nat) :
    Sound k c r d (fillIn program types) fun _ _ => True :=
  (sound_resolveAliases program).bind fun _ _ _ _ =>
    (sound_countEach (fun stmt _ => sound_registerMembers stmt) program).bind fun _ _ _ _ =>
      (sound_countEach (fun stmt _ => sound_registerFunction stmt) program).bind fun _ _ _ _ =>
        (sound_walkImports program).bind fun _ _ _ _ => .pure fun _ _ => trivial

end HybroidSema.Declare
