import HybroidSema.Proofs.ContainerBodies
import HybroidSema.Proofs.EntityContract
import HybroidSema.Proofs.PartRuns

/-!
# Fields that are not initialized

Every field that is declared without a value is to be assigned by the constructor of its class, or by the
first spawn function of its entity. The scope of the class or entity records what was assigned since it
was opened, and when the function is done the other fields are reported. Nothing else in a file reports
fields, so the reports of a file are those of its classes and entities one after the other.

* `InBody.runs_constructorBody` and `InBody.runs_walkTurns`: the two functions that must assign fields,
  and what is reported after them.
* `inContainer_eq_ok`: the run of a body starts in a scope where nothing is assigned.
* `ReportsFields`: what a statement reports, in terms of the assignments that its walk comes to.
* `fields_rootStmt` and `fields_eachStmt`: by induction on the statements, what a file reports.
* `analyze_reports_uninitialized_fields`: the same for every file of a build.
-/

namespace HybroidSema

namespace Check

variable {α : Type} {c : Context} {s t u : State} {o : ScopeStack} {m : Members}
  {fields : List (Ident × Bool)}

/-! ## The function that must assign the fields -/

/-- The first spawn function is found behind the other functions. -/
theorem assigned_firstSpawn {entity : EntityInfo} {decls : List LifecycleDecl}
    {first : LifecycleDecl} {signature : Signature}
    (hfirst : LifecycleDecl.first? decls .spawn = some first)
    (hsignature : entity.lifecycle? .spawn = some signature) :
    Assigned (.firstSpawn decls entity) = markings [.functionBody signature first.params first.body] := by
  induction decls with
  | nil => cases hfirst
  | cons decl rest ih =>
    obtain ⟨kind, generics, params, returns, stmts, span⟩ := decl
    rw [first?_cons] at hfirst
    refine (assigned_eq _).trans ((bot_sup_eq _).trans ?_)
    by_cases hkind : kind = .spawn
    · subst hkind
      rw [if_pos rfl] at hfirst
      obtain rfl := Option.some.inj hfirst
      simp only [taskParts, walkedSignature, hsignature, if_true]
      rfl
    · rw [if_neg hkind] at hfirst
      simp only [taskParts, if_neg hkind]
      exact (markings_inside [] _).trans (ih hfirst)

/-- The constructor must assign the fields. -/
theorem InBody.runs_constructorBody (h : InBody c s m ⊥) (hm : m.Registers fields)
    (decl : ConstructorDecl) (signature : Signature) :
    Runs (constructorBody (some decl) (some signature)) c s fun _ t =>
      (∃ assigned, InBody c t m assigned) ∧ ∃ reported, t.unassigned = s.unassigned ++ reported ∧
        UnassignedFields fields (Assigned (.constructorBody (some decl) (some signature)) c s)
          decl.span reported := by
  obtain ⟨generics, params, stmts, span⟩ := decl
  have hassigned : Assigned (.constructorBody (some ⟨generics, params, stmts, span⟩) (some signature)) =
      markings [.functionBody signature params stmts] := (assigned_eq _).trans (bot_sup_eq _)
  rw [hassigned]
  refine (h.runs_inFunction hm signature params span stmts).bind fun _ t ⟨ht, hsame⟩ => ?_
  rw [bot_sup_eq] at ht
  refine (ht.runs_checkFieldsInitialized hm span).bind fun _ u ⟨hu, reported, hreported, hfields⟩ => ?_
  exact .pure ⟨⟨_, hu⟩, reported, hsame ▸ hreported, hfields⟩

/-- The first spawn function must assign the fields. -/
theorem InBody.runs_walkTurns (h : InBody c s m ⊥) (hm : m.Registers fields) {entity : EntityInfo}
    {decl : EntityDecl} {first : LifecycleDecl} {signature : Signature}
    (hfirst : LifecycleDecl.first? decl.functions .spawn = some first)
    (hsignature : entity.lifecycle? .spawn = some signature) :
    Runs (walkTurns entity decl) c s fun _ t =>
      (∃ assigned, InBody c t m assigned) ∧ ∃ reported, t.unassigned = s.unassigned ++ reported ∧
        UnassignedFields fields (Assigned (.firstSpawn decl.functions entity) c s) first.span
          reported := by
  have hkind : first.kind = .spawn := by simpa using List.find?_some hfirst
  rw [assigned_firstSpawn hfirst hsignature]
  simp only [walkTurns, hfirst, walkTurn, turnSignature_registered (hkind ▸ hsignature), pure_bind,
    bind_assoc]
  refine (h.runs_inFunction hm signature first.params first.span first.body).bind fun _ t ht => ?_
  obtain ⟨ht, hsame⟩ := ht
  rw [bot_sup_eq] at ht
  refine (ht.runs_checkFieldsInitialized hm first.span).bind fun _ u hu => ?_
  obtain ⟨hu, reported, hreported, hfields⟩ := hu
  refine (hu.runs_turns hm decl.turns.tail entity).bind fun _ v hv => .pure ?_
  exact ⟨hv.1, reported, by rw [hv.2, hreported, hsame], hfields⟩

/-! ## Opening and closing -/

/-- The scope of a class or entity is opened, and has its members. -/
theorem runs_enterContainer {tag : ScopeTag} (htag : tag.container?.isSome) (hl : Live c s o)
    (hnodup : (m.bound.map Prod.fst).Nodup) :
    Runs (modifyScopes (·.push tag { selfRef := true }) >>= fun _ => bindMembers m) c s fun _ t =>
      Inner c t (o.cons (o.pushedScope tag.outline { selfRef := true })) m.bound ∧
        t.alerts = s.alerts := by
  obtain ⟨env, hown, -, ho⟩ := hl.own
  have hopens := env.scopes.push_opens tag { selfRef := true }
  have hown' : (s.modifyOwn c fun env => { env with
      scopes := env.scopes.push tag { selfRef := true } }).own? c =
      some { env with scopes := env.scopes.push tag { selfRef := true } } := by
    rw [own?_modifyOwn, hown]
    rfl
  have hinner : Inner c (s.modifyOwn c fun env => { env with
      scopes := env.scopes.push tag { selfRef := true } })
      (o.cons (o.pushedScope tag.outline { selfRef := true })) [] := by
    refine ⟨hl.modifyOwn fun e he _ => ?_, ?_, ?_, ?_⟩
    · obtain rfl := Option.some.inj (hown.symm.trans he)
      exact ⟨rfl, by rw [hopens.1, ho]⟩
    · exact (ScopeTag.container?_outline tag).symm ▸ htag
    · simp [ScopeStack.current, ScopeStack.cons, ScopeStack.pushedScope, Permissions.union]
    · rw [State.members_eq hown', ScopeStack.members_eq_current
        (s := env.scopes.push tag { selfRef := true }) htag]
      rfl
  obtain ⟨⟨⟩, t, hbind, ht, halerts⟩ := hinner.runs_bindMembers hnodup
  exact ⟨⟨⟩, t, (bind_apply_ok (modifyScopes_eq hown _)).trans hbind, ht, halerts⟩

/-- Closing a scope reports nothing. -/
theorem alerts_closeScope {closed : Option Scope} (h : closeScope c s = .ok (closed, t)) :
    t.alerts = s.alerts := by
  obtain ⟨stack, u, hscopes, h⟩ := bind_eq_ok h
  obtain ⟨rfl, env, hown, rfl⟩ := scopes_eq_ok hscopes
  cases hclose : env.scopes.close? with
  | none =>
    rw [hclose] at h
    cases h
    rfl
  | some p =>
    rw [hclose] at h
    obtain ⟨⟨⟩, v, hmodify, h⟩ := bind_eq_ok h
    rw [modifyScopes_eq hown] at hmodify
    cases hmodify
    cases h
    rfl

/-- A run in the scope of a class or entity. -/
theorem inContainer_eq_ok {tag : ScopeTag} (htag : tag.container?.isSome) (hl : Live c s o)
    (hnodup : (m.bound.map Prod.fst).Nodup) {body : Check α} {a : α}
    {closed : Option Scope}
    (hrun : inScope (·.push tag { selfRef := true }) (bindMembers m >>= fun _ => body) c s =
      .ok ((a, closed), t)) :
    ∃ u v, (modifyScopes (·.push tag { selfRef := true }) >>= fun _ => bindMembers m) c s =
        .ok (⟨⟩, u) ∧ InBody c u m ⊥ ∧ u.alerts = s.alerts ∧ body c u = .ok (a, v) ∧
      t.alerts = v.alerts := by
  obtain ⟨⟨⟩, u, henter, hinner, halerts⟩ := runs_enterContainer htag hl hnodup
  have hsplit : inScope (·.push tag { selfRef := true }) (bindMembers m >>= fun _ => body) =
      (modifyScopes (·.push tag { selfRef := true }) >>= fun _ => bindMembers m) >>= fun _ =>
        body >>= fun result => closeScope >>= fun closed => pure (result, closed) := by
    simp only [inScope, bind_assoc]
  rw [hsplit, bind_apply_ok henter] at hrun
  obtain ⟨_, v, hbody, hrun⟩ := bind_eq_ok hrun
  obtain ⟨_, w, hclose, hrun⟩ := bind_eq_ok hrun
  cases hrun
  exact ⟨u, v, henter, hinner.inBody, halerts, hbody, alerts_closeScope hclose⟩

/-! ## Statements at the root -/

/-- What is reported about fields where a statement is walked at the root, given what its walk comes to.
A class whose initializers have neither functions nor matches in them reports the fields that its
constructor leaves unassigned, and an entity those that its first spawn function does. Nothing else
reports fields. -/
def ReportsFields (p : Program) (c : Context) (visits : List Region → Task → State → Prop) (st : Stmt)
    (reported : List Alert) : Prop :=
  match st with
  | .classDecl decl =>
    if p.owns decl.name then
      (∀ field ∈ decl.fields, Expr.allPlain field.values = true) →
        match decl.constructor with
        | none => reported = []
        | some constructor => ∃ ref signature u,
          visits [.container ref .classDecl] (.constructorBody (some constructor) (some signature)) u ∧
          UnassignedFields (declaredFields decl.fields)
            (Assigned (.constructorBody (some constructor) (some signature)) c u) constructor.span
            reported
    else reported = []
  | .entityDecl decl =>
    if p.owns decl.name then
      (∀ field ∈ decl.fields, Expr.allPlain field.values = true) →
        match LifecycleDecl.first? decl.functions .spawn with
        | none => reported = []
        | some spawner => ∃ entity u,
          visits [.container entity.ty .entityDecl] (.firstSpawn decl.functions entity) u ∧
          UnassignedFields (declaredFields decl.fields)
            (Assigned (.firstSpawn decl.functions entity) c u) spawner.span reported
    else reported = []
  | _ => reported = []

theorem atRoot_eq (hl : Live c s {}) (what : String) (span : Span) :
    atRoot what span c s = .ok (true, s) := by
  obtain ⟨isRoot, t, hrun, -⟩ := runs_atRoot .looking hl what span
  obtain ⟨rfl, rfl⟩ := atRoot_eq_ok hl hrun
  exact hrun

/-- A part of the body of a class or entity that is found, after its members were bound. -/
theorem containerPart_eq {γ : Type} {what : String} {span : Span} {find : Check (Option γ)}
    {info : γ} (tag : γ → ScopeTag) (members : γ → Members) (hl : Live c s {})
    (hfind : find c s = .ok (some info, s))
    (hopen : (modifyScopes (·.push (tag info) { selfRef := true }) >>= fun _ =>
      bindMembers (members info)) c s = .ok (⟨⟩, u)) (part : γ → Part) :
    Part.containerPart what span find tag members part c s = part info c u := by
  have hopened := bind_apply_ok (f := fun _ => part info) hopen
  rw [bind_assoc] at hopened
  rw [Part.containerPart, bind_apply_ok (atRoot_eq hl what span)]
  exact (bind_apply_ok hfind).trans hopened

/-- The walk of a class comes to its constructor after the initializers. -/
theorem visits_constructorBody {decl : ClassDecl} {info : ClassInfo} {v : State}
    {out : List VariableDecl} (hl : Live c s {}) (hfind : ownClass? decl.name c s = .ok (some info, s))
    (hopen : (modifyScopes (·.push (.classBody info.ty) { selfRef := true }) >>= fun _ =>
      bindMembers info.members) c s = .ok (⟨⟩, u))
    (hfields : initializers decl.fields info.ty .classDecl info.members c u = .ok (out, v)) :
    Visits c (.stmt (.classDecl decl)) s [.container info.ty .classDecl]
      (.constructorBody decl.constructor info.constructor) v := by
  obtain ⟨name, isPub, fields, methods, constructor, span⟩ := decl
  have hpart (part : ClassInfo → List Region → Part) : Part.classPart name span part c s =
      part info [.container info.ty .classDecl] c u := by
    rw [Part.classPart]
    exact containerPart_eq (fun info : ClassInfo => .classBody info.ty) ClassInfo.members hl hfind hopen _
  exact .into (by simp only [taskParts, stmtParts, List.mem_cons, true_or, or_true])
    ((hpart fun info regions => do
      let _ ← initializers fields info.ty .classDecl info.members
      Part.inside regions (.constructorBody constructor info.constructor)).trans
        (bind_apply_ok hfields)) (.here _ _)

/-- The walk of an entity comes to its first spawn function after the initializers. -/
theorem visits_firstSpawn {decl : EntityDecl} {info : EntityInfo} {v : State}
    {out : List VariableDecl} (hl : Live c s {}) (hfind : ownEntity? decl.name c s = .ok (some info, s))
    (hopen : (modifyScopes (·.push (.entityBody info.ty) { selfRef := true }) >>= fun _ =>
      bindMembers info.members) c s = .ok (⟨⟩, u))
    (hfields : initializers decl.fields info.ty .entityDecl info.members c u = .ok (out, v)) :
    Visits c (.stmt (.entityDecl decl)) s [.container info.ty .entityDecl]
      (.firstSpawn decl.functions info) v := by
  obtain ⟨name, isPub, fields, methods, functions, span⟩ := decl
  have hpart (part : EntityInfo → List Region → Part) : Part.entityPart name span part c s =
      part info [.container info.ty .entityDecl] c u := by
    rw [Part.entityPart]
    exact containerPart_eq (fun info : EntityInfo => .entityBody info.ty) EntityInfo.members hl hfind hopen _
  exact .into (by simp only [taskParts, stmtParts, List.mem_cons, true_or, or_true])
    ((hpart fun info regions => do
      let _ ← initializers fields info.ty .entityDecl info.members
      Part.inside regions (.firstSpawn functions info)).trans (bind_apply_ok hfields)) (.here _ _)

section Statements

variable {id : EnvId} {p : Program} {e : Environment} {out : Stmt}

/-- Whether a class is found depends on whether it has its name. -/
theorem ownClass?_of_holds (h : HoldsFields id p e) (hown : s.own? c = some e) {decl : ClassDecl}
    (hdecl : .classDecl decl ∈ p) :
    (p.owns decl.name = true ∧ ∃ info, info.Registers decl ∧
      ownClass? decl.name c s = .ok (some info, s)) ∨
    (p.owns decl.name = false ∧ ∃ t, ownClass? decl.name c s = .ok (none, t) ∧
      t.alerts = s.alerts) := by
  rw [ownClass?_eq, bind_apply_ok (environment_eq hown)]
  cases howns : p.owns decl.name with
  | true =>
    obtain ⟨info, hinfo, hregisters⟩ := h.classes decl hdecl howns
    refine .inl ⟨rfl, info, hregisters, ?_⟩
    rw [hinfo, Option.elim_some, if_pos hregisters.span]
    rfl
  | false =>
    refine .inr ⟨rfl, ?_⟩
    cases hinfo : e.classes.get? decl.name.name with
    | none => exact ⟨_, rfl, rfl⟩
    | some info =>
      have hspan : info.span ≠ decl.name.span := by
        rw [Ne, ← h.firsts.owns_class_iff hinfo, howns]
        exact Bool.false_ne_true
      rw [Option.elim_some, if_neg hspan]
      exact ⟨s, rfl, rfl⟩

/-- Whether an entity is found depends on whether it has its name. -/
theorem ownEntity?_of_holds (h : HoldsFields id p e) (hown : s.own? c = some e)
    {decl : EntityDecl} (hdecl : .entityDecl decl ∈ p) :
    (p.owns decl.name = true ∧ ∃ info, info.Registers decl ∧
      e.entities.get? decl.name.name = some info ∧ ownEntity? decl.name c s = .ok (some info, s)) ∨
    (p.owns decl.name = false ∧ ∃ t, ownEntity? decl.name c s = .ok (none, t) ∧
      t.alerts = s.alerts) := by
  rw [ownEntity?_eq, bind_apply_ok (environment_eq hown)]
  cases howns : p.owns decl.name with
  | true =>
    obtain ⟨info, hinfo, hregisters⟩ := h.entities decl hdecl howns
    refine .inl ⟨rfl, info, hregisters, hinfo, ?_⟩
    rw [hinfo, Option.elim_some, if_pos hregisters.span]
    rfl
  | false =>
    refine .inr ⟨rfl, ?_⟩
    cases hinfo : e.entities.get? decl.name.name with
    | none => exact ⟨_, rfl, rfl⟩
    | some info =>
      have hspan : info.span ≠ decl.name.span := by
        rw [Ne, ← h.firsts.owns_entity_iff hinfo, howns]
        exact Bool.false_ne_true
      rw [Option.elim_some, if_neg hspan]
      exact ⟨s, rfl, rfl⟩

theorem State.unassigned_of_alerts_eq (h : t.alerts = s.alerts) : t.unassigned = s.unassigned := by
  rw [State.unassigned, State.unassigned, h]

/-- A class at the root. -/
theorem fields_classDecl (hl : Live c s {}) (hown : s.own? c = some e) (h : HoldsFields id p e)
    {decl : ClassDecl} (hdecl : .classDecl decl ∈ p) {reported : List Alert}
    (hrun : stmt (.classDecl decl) c s = .ok (out, t))
    (hreported : t.unassigned = s.unassigned ++ reported) :
    ReportsFields p c (Visits c (.stmt (.classDecl decl)) s) (.classDecl decl) reported := by
  have hfound := ownClass?_of_holds h hown hdecl
  obtain ⟨name, isPub, fields, methods, constructor, span⟩ := decl
  unfold stmt at hrun
  rw [bind_apply_ok (atRoot_eq hl _ _)] at hrun
  simp only [if_true] at hrun
  obtain ⟨howns, info, hregisters, hfind⟩ | ⟨howns, u, hfind, halerts⟩ := hfound
  · simp only [ReportsFields, howns, if_true]
    intro hplain
    rw [bind_apply_ok hfind] at hrun
    obtain ⟨⟨⟨_, _, _⟩, _⟩, v, hscope, hpure⟩ := bind_eq_ok hrun
    cases hpure
    obtain ⟨u, w, hopen, hbody, halerts, hwalk, halerts'⟩ :=
      inContainer_eq_ok rfl hl hregisters.members.tidy.nodup hscope
    obtain ⟨fields', u₁, hfields, hwalk⟩ := bind_eq_ok hwalk
    obtain ⟨constructor', u₂, hconstructor, hwalk⟩ := bind_eq_ok hwalk
    obtain ⟨methods', u₃, hmethods, hwalk⟩ := bind_eq_ok hwalk
    cases hwalk
    obtain ⟨hbody₁, hsame₁⟩ :=
      (hbody.runs_fixes (fixes_initializers hplain info.ty .classDecl info.members)).apply hfields
    have hopened : u₁.unassigned = s.unassigned :=
      hsame₁.trans (State.unassigned_of_alerts_eq halerts)
    have hclosed := State.unassigned_of_alerts_eq halerts'
    cases constructor with
    | none =>
      cases hconstructor
      have hsame₃ := (hbody₁.runs_methodBodies hregisters.members methods info.members).apply hmethods
      rw [hclosed, hsame₃, hopened] at hreported
      simpa using hreported
    | some constructor =>
      have hvisits : Visits c (.stmt (.classDecl ⟨name, isPub, fields, methods, some constructor, span⟩)) s
          [.container info.ty .classDecl] (.constructorBody (some constructor) info.constructor) u₁ :=
        visits_constructorBody hl hfind hopen hfields
      obtain ⟨signature, hsignature⟩ := Option.isSome_iff_exists.1 hregisters.constructor
      rw [hsignature] at hconstructor hvisits
      obtain ⟨⟨_, hbody₂⟩, found, hfound, hfields'⟩ :=
        (hbody₁.runs_constructorBody hregisters.members constructor signature).apply hconstructor
      have hsame₃ := (hbody₂.runs_methodBodies hregisters.members methods info.members).apply hmethods
      rw [hclosed, hsame₃, hfound, hopened, List.append_cancel_left_eq] at hreported
      subst hreported
      exact ⟨info.ty, signature, u₁, hvisits, hfields'⟩
  · rw [bind_apply_ok hfind] at hrun
    cases hrun
    rw [State.unassigned_of_alerts_eq halerts] at hreported
    simpa [ReportsFields, howns] using hreported

/-- An entity at the root. -/
theorem fields_entityDecl (hl : Live c s {}) (hown : s.own? c = some e) (h : HoldsFields id p e)
    {decl : EntityDecl} (hdecl : .entityDecl decl ∈ p) {reported : List Alert}
    (hrun : stmt (.entityDecl decl) c s = .ok (out, t))
    (hreported : t.unassigned = s.unassigned ++ reported) :
    ReportsFields p c (Visits c (.stmt (.entityDecl decl)) s) (.entityDecl decl) reported := by
  obtain ⟨howns, info, hregisters, hinfo, hfind⟩ | ⟨howns, u, hfind, halerts⟩ :=
    ownEntity?_of_holds h hown hdecl
  · simp only [ReportsFields, howns, if_true]
    intro hplain
    rw [stmt_entityDecl_eq hl hown hinfo hregisters.span hregisters.lifecycles,
      map_eq_pure_bind] at hrun
    obtain ⟨walked, v, hwalk, hpure⟩ := bind_eq_ok hrun
    cases hpure
    obtain ⟨⟨⟨_, _, _⟩, _⟩, v, hscope, hpure⟩ := bind_eq_ok hwalk
    cases hpure
    obtain ⟨u, w, hopen, hbody, halerts, hwalk, halerts'⟩ :=
      inContainer_eq_ok rfl hl hregisters.members.tidy.nodup hscope
    obtain ⟨fields', u₁, hfields, hwalk⟩ := bind_eq_ok hwalk
    obtain ⟨functions', u₂, hfunctions, hwalk⟩ := bind_eq_ok hwalk
    obtain ⟨methods', u₃, hmethods, hwalk⟩ := bind_eq_ok hwalk
    cases hwalk
    obtain ⟨hbody₁, hsame₁⟩ :=
      (hbody.runs_fixes (fixes_initializers hplain info.ty .entityDecl info.members)).apply hfields
    have hopened : u₁.unassigned = s.unassigned :=
      hsame₁.trans (State.unassigned_of_alerts_eq halerts)
    have hclosed := State.unassigned_of_alerts_eq halerts'
    cases hfirst : LifecycleDecl.first? decl.functions .spawn with
    | none =>
      simp only [walkTurns, hfirst] at hfunctions
      obtain ⟨⟨_, hbody₂⟩, hsame₂⟩ :=
        (hbody₁.runs_turns hregisters.members decl.turns info).apply hfunctions
      have hsame₃ :=
        (hbody₂.runs_methodBodies hregisters.members decl.methods info.members).apply hmethods
      rw [hclosed, hsame₃, hsame₂, hopened] at hreported
      simpa using hreported
    | some first =>
      have hvisits := visits_firstSpawn hl hfind hopen hfields
      obtain ⟨signature, hsignature⟩ :=
        Option.isSome_iff_exists.1 (hregisters.lifecycles .spawn (by rw [hfirst]; rfl))
      obtain ⟨⟨_, hbody₂⟩, found, hfound, hfields'⟩ :=
        (hbody₁.runs_walkTurns hregisters.members hfirst hsignature).apply hfunctions
      have hsame₃ :=
        (hbody₂.runs_methodBodies hregisters.members decl.methods info.members).apply hmethods
      rw [hclosed, hsame₃, hfound, hopened, List.append_cancel_left_eq] at hreported
      subst hreported
      exact ⟨info, u₁, hvisits, hfields'⟩
  · obtain ⟨name, isPub, fields, methods, functions, span⟩ := decl
    unfold stmt at hrun
    rw [bind_apply_ok (atRoot_eq hl _ _)] at hrun
    simp only [if_true] at hrun
    rw [bind_apply_ok hfind] at hrun
    cases hrun
    rw [State.unassigned_of_alerts_eq halerts] at hreported
    simpa [ReportsFields, howns] using hreported

/-- A statement at the root that is no class and no entity. -/
theorem unassigned_rootStmt (hl : Live c s {}) {st : Stmt} (hst : st.isContainer = false)
    (hrun : stmt st c s = .ok (out, t)) : t.unassigned = s.unassigned := by
  obtain ⟨env, hown, -, ho⟩ := hl.own
  have hnone : env.scopes.nearestContainer? = none := by
    rw [← ScopeStack.nearestContainer?_outline, ho]
    rfl
  have hmembers : s.members c = [] := by
    rw [State.members_eq hown, ScopeStack.members, hnone]
    rfl
  have htidy : MembersTidy (s.members c) := by
    rw [hmembers]
    exact ⟨List.nodup_nil, fun _ h => absurd h List.not_mem_nil⟩
  have hinside : ({} : ScopeStack).Inside false :=
    ⟨fun h => absurd h Bool.false_ne_true, rfl, fun h => absurd h Bool.false_ne_true⟩
  have hassigning := assigning_stmt st false fun h => absurd (hst.symm.trans h) Bool.false_ne_true
  exact ((hassigning c s {} hl hinside htidy).apply hrun).unassigned

/-- A statement at the root. -/
theorem fields_rootStmt (hl : Live c s {}) (hown : s.own? c = some e) (h : HoldsFields id p e)
    {st : Stmt} (hst : st ∈ p) (hrun : stmt st c s = .ok (out, t)) :
    ∃ reported, t.unassigned = s.unassigned ++ reported ∧
      ReportsFields p c (Visits c (.stmt st) s) st reported := by
  have hleaves : Leaves .checking (stmt st) (st.leaves ·) := leaves_stmt st
  obtain ⟨hsteps, -⟩ := (hleaves c s {} hl trivial (.inl rfl)).apply hrun
  obtain ⟨added, hadded⟩ := hsteps.alerts_prefix
  have hreported : t.unassigned = s.unassigned ++ added.filter (·.kind.isUninitialized) := by
    rw [State.unassigned, State.unassigned, ← List.filter_append, hadded]
  refine ⟨_, hreported, ?_⟩
  cases st with
  | classDecl decl => exact fields_classDecl hl hown h hst hrun hreported
  | entityDecl decl => exact fields_entityDecl hl hown h hst hrun hreported
  | _ =>
    rw [unassigned_rootStmt hl rfl hrun] at hreported
    exact List.self_eq_append_right.1 hreported

theorem ReportsFields.mono {visits visits' : List Region → Task → State → Prop} {st : Stmt}
    {reported : List Alert} (h : ReportsFields p c visits st reported)
    (hvisits : ∀ regions task u, visits regions task u → visits' regions task u) :
    ReportsFields p c visits' st reported := by
  cases st with
  | classDecl decl =>
    simp only [ReportsFields] at h ⊢
    split at h
    · next howns =>
      rw [if_pos howns]
      intro hplain
      have hreports := h hplain
      cases hconstructor : decl.constructor with
      | none => simpa only [hconstructor] using hreports
      | some constructor =>
        rw [hconstructor] at hreports
        obtain ⟨ref, signature, u, hvisit, hfields⟩ := hreports
        exact ⟨ref, signature, u, hvisits _ _ _ hvisit, hfields⟩
    · next howns => rwa [if_neg howns]
  | entityDecl decl =>
    simp only [ReportsFields] at h ⊢
    split at h
    · next howns =>
      rw [if_pos howns]
      intro hplain
      have hreports := h hplain
      cases hfirst : LifecycleDecl.first? decl.functions .spawn with
      | none => simpa only [hfirst] using hreports
      | some spawner =>
        rw [hfirst] at hreports
        obtain ⟨entity, u, hvisit, hfields⟩ := hreports
        exact ⟨entity, u, hvisits _ _ _ hvisit, hfields⟩
    · next howns => rwa [if_neg howns]
  | _ => exact h

/-- What the walk of the rest of a body at the root comes to, the whole comes to. -/
theorem visits_rest {first next : Stmt} {others : List Stmt} {reported : Bool} (hlu : Live c u {})
    (hfirst : (stmt first >>= fun _ => clearNarrowings) c s = .ok (⟨⟩, u)) {regions : List Region}
    {task : Task} {v : State} (h : Visits c (.body (next :: others) reported) u regions task v) :
    Visits c (.body (first :: next :: others) reported) s regions task v := by
  obtain ⟨certain, u', halways, hcertain, hsame⟩ := runs_alwaysLeaves hlu
  obtain rfl : certain = false := hcertain
  obtain rfl := hsame
  have hpart : (do
      let _ ← stmt first
      clearNarrowings
      if ← alwaysLeaves then
        if !reported then report .unreachableCode (runSpan next others)
        if (← get).session.config.prune then Part.skip else Part.here (.body (next :: others) true)
      else Part.here (.body (next :: others) reported)) c s =
        .ok (some ([], .body (next :: others) reported), u') := by
    rw [← bind_assoc, bind_apply_ok hfirst, bind_apply_ok halways]
    rfl
  rw [← List.append_nil regions]
  exact .into (List.mem_cons_of_mem _ List.mem_cons_self) hpart h

/-- Every statement at the root adds its reports. -/
theorem fields_eachStmt {stmts out : List Stmt} (hl : Live c s {}) (hown : s.own? c = some e)
    (h : HoldsFields id p e) (hstmts : stmts ⊆ p) (hrun : eachStmt stmts c s = .ok (out, t)) :
    ∃ segments, t.unassigned = s.unassigned ++ segments.flatten ∧
      List.Forall₂ (ReportsFields p c (Visits c (.body stmts false) s)) stmts segments := by
  induction stmts generalizing s e out with
  | nil =>
    cases hrun
    exact ⟨[], by simp, .nil⟩
  | cons first rest ih =>
    rw [List.cons_subset] at hstmts
    obtain ⟨first', u, hfirst, hrun⟩ := bind_eq_ok hrun
    obtain ⟨⟨⟩, v, hclear, hrun⟩ := bind_eq_ok hrun
    obtain ⟨out', w, hrest, hpure⟩ := bind_eq_ok hrun
    cases hpure
    obtain ⟨reported, hreported, hreports⟩ := fields_rootStmt hl hown h hstmts.1 hfirst
    -- The next statement is walked at the root, too, and what is registered is still there.
    have hleaves : Leaves .checking (stmt first) (first.leaves ·) := leaves_stmt first
    obtain ⟨hsteps, x, hx, hlu⟩ := (hleaves c s {} hl trivial (.inl rfl)).apply hfirst
    obtain rfl := hx.silent (Stmt.leaves_nothing first)
    rw [ScopeStack.addExits_empty] at hlu
    have hquiet : Quiet .checking clearNarrowings := quiet_clearNarrowings
    obtain ⟨hsteps', hlv⟩ := (hquiet c u _ hlu).apply hclear
    obtain ⟨e', hown', h'⟩ := Steps.holdsFields hl (hsteps.trans hsteps') hown h
    obtain ⟨segments, hsegments, hall⟩ := ih hlv hown' h' hstmts.2 hrest
    have hcleared : v.unassigned = u.unassigned := by
      have hlooking : Quiet .looking clearNarrowings := quiet_clearNarrowings
      exact Steps.unassigned_eq rfl ((hlooking c u _ hlu).apply hclear).1
    refine ⟨reported :: segments, ?_, .cons (hreports.mono fun regions task w hw => ?_) ?_⟩
    · rw [hsegments, hcleared, hreported, List.flatten_cons, List.append_assoc]
    · rw [← List.append_nil regions]
      exact .into List.mem_cons_self rfl hw
    · cases rest with
      | nil => cases hall; exact .nil
      | cons next others =>
        exact hall.imp fun st reported hst => hst.mono fun regions task w hw =>
          visits_rest hlv ((bind_apply_ok hfirst).trans hclear) hw

end Statements

theorem programTask_eq (p : Program) : programTask p = .body (rootStatements p) false := by
  cases p with
  | nil => rfl
  | cons first rest => cases first <;> rfl

theorem rootStatements_subset (p : Program) : rootStatements p ⊆ p := by
  unfold rootStatements
  split
  · exact List.subset_cons_self ..
  · exact List.Subset.refl _

end Check

/-! ## Builds -/

open Check Declare

/-- The alerts about fields that are not initialized. -/
def Diagnostics.unassigned (d : Diagnostics) : List Alert :=
  d.alerts.filter (·.kind.isUninitialized)

@[simp] theorem Diagnostics.unassigned_append (d e : Diagnostics) :
    (d.append e).unassigned = d.unassigned ++ e.unassigned := by
  simp [unassigned, append]

/-- An `env` declaration reports no field. -/
theorem unassigned_header (s : Session) (path : String) (p : Program) :
    (s.header path p).2.2.unassigned = [] := by
  unfold Session.header
  split
  · cases EnvKind.ofName? _ <;> cases s.registry.lookup? _ <;> rfl
  · rfl

/-- A registration reports no field. -/
theorem Declare.Registration.unassigned_final {p : Program} {c : Context} {s : State}
    {o : ScopeStack} (run : Registration p c s) (hl : Live c s o) :
    run.final.unassigned = s.unassigned := by
  rw [Steps.unassigned_eq rfl (run.steps_final hl).1, Steps.unassigned_eq rfl (run.steps_bound hl).1,
    Steps.unassigned_eq rfl (run.steps_filled hl).1, Steps.unassigned_eq rfl (run.steps_resolved hl).1,
    Steps.unassigned_eq rfl (run.steps_claimed hl).1, Steps.unassigned_eq rfl (run.steps_imported hl).1]

/-- Which fields a build reports as not initialized. For every file they are, in source order of its
statements, those of the classes that have a constructor and of the entities that have a spawn function:
each field that is declared without a value and that the walk of the constructor, or of the first spawn
function, comes to no assignment of, once. -/
theorem analyze_reports_uninitialized_fields {config : Config} {files : List (String × Program)}
    {out : BuildOutput} (h : analyze config files = .ok out) {i : Nat} {path : String} {p : Program}
    (hfile : files[i]? = some (path, p)) (hidents : p.typeIdents.Nodup) :
    ∃ walked c s t, ∃ run : Registration p c s, ∃ alerts segments,
      FinishedWalk config (.user i) p walked c s t ∧
      Check.program p c run.final = .ok (walked, t) ∧
      out.alerts[i]? = some alerts ∧ alerts.unassigned = segments.flatten ∧
      List.Forall₂ (ReportsFields p c (Visits c (programTask p) run.final)) (rootStatements p)
        segments := by
  obtain ⟨-, -, -, hwalked⟩ := finished_of_analyze h
  obtain ⟨walked, c, s, t, env, hwalk, -, -, -, halerts⟩ := hwalked i path p hfile
  obtain ⟨counts, u, hdeclare, hcheck⟩ := bind_eq_ok hwalk.run
  obtain ⟨run, -, rfl⟩ := Registration.of_run hdeclare
  obtain ⟨new, hnew, hown⟩ := hwalk.isNew
  have hfresh : Environment.IsFresh { new with state := .walking } := by
    rw [Environment.IsFresh, hnew]
    rfl
  obtain ⟨e, hown', hholds⟩ := run.holdsFields hwalk.live hown hfresh hidents
  obtain ⟨-, hl⟩ := run.steps_final hwalk.live
  obtain ⟨head, statements, hstatements, -, -⟩ := program_eq_eachStmt hl hcheck
  obtain ⟨segments, hsegments, hall⟩ :=
    fields_eachStmt hl hown' hholds (rootStatements_subset p) hstatements
  have hstart : run.final.unassigned = [] := by
    rw [run.unassigned_final hwalk.live, State.unassigned, hwalk.alerts]
    rfl
  refine ⟨walked, c, s, t, run, _, segments, hwalk, hcheck, halerts, ?_, ?_⟩
  · rw [hstart, List.nil_append] at hsegments
    rw [Diagnostics.unassigned_append, unassigned_header, List.nil_append]
    exact hsegments
  · rwa [programTask_eq]

/-- A constructor that assigns one field through `self`, a parameter that has the name of another one,
and the third field in a function. -/
def podConstructor : ConstructorDecl where
  generics := []
  params := [⟨⟨"b", .synthetic⟩, ⟨none, ⟨"number", .synthetic⟩, [], [], [], false, .synthetic⟩⟩]
  body :=
    let set (target : Expr) : Stmt :=
      .assign [target] .plain [.literal ⟨.number, "1", .synthetic⟩] .synthetic
    [set (.field (.self none .synthetic) ⟨"a", .synthetic⟩ none .synthetic),
      set (.ident ⟨"b", .synthetic⟩),
      .function ⟨⟨"later", .synthetic⟩, [], [], [], [set (.ident ⟨"c", .synthetic⟩)], false,
        .synthetic⟩]
  span := ⟨4, 0, 1⟩

def podDecl : ClassDecl where
  name := ⟨"Pod", .synthetic⟩
  isPub := false
  fields := [⟨[⟨"a", ⟨1, 0, 1⟩⟩, ⟨"b", ⟨2, 0, 1⟩⟩, ⟨"c", ⟨3, 0, 1⟩⟩],
    some ⟨none, ⟨"number", .synthetic⟩, [], [], [], false, .synthetic⟩, [], false, false, .synthetic⟩]
  methods := []
  constructor := some podConstructor
  span := .synthetic

def podProgram : Program :=
  [.level "Main", .classDecl podDecl]

/-- The spans of the fields that are reported in the files of a build. -/
def BuildOutput.unassigned (out : BuildOutput) : List (List Span) :=
  out.alerts.map fun alerts => alerts.unassigned.map (·.span)

/-- Only the field with the name of the parameter is reported, as the parameter is assigned. -/
theorem analyze_reports_uninitialized_fields_pod : podProgram.typeIdents.Nodup ∧
    ∃ out alerts c visits signature u, analyze {} [("main.hyb", podProgram)] = .ok out ∧
      out.alerts[0]? = some alerts ∧
      alerts.unassigned = [Ident.unassigned ⟨4, 0, 1⟩ ⟨"b", ⟨2, 0, 1⟩⟩] ∧
      ReportsFields podProgram c visits (.classDecl podDecl) alerts.unassigned ∧
      let assigned := Assigned (.constructorBody (some podConstructor) (some signature)) c u
      assigned "a" ∧ ¬assigned "b" ∧ assigned "c" := by
  have hidents : podProgram.typeIdents.Nodup := by decide
  have hreported : (analyze {} [("main.hyb", podProgram)]).toOption.map BuildOutput.unassigned =
      some [[⟨2, 0, 1⟩]] := by decide +kernel
  refine ⟨hidents, ?_⟩
  cases hout : analyze {} [("main.hyb", podProgram)] with
  | error e =>
    rw [hout] at hreported
    cases hreported
  | ok out =>
    rw [hout] at hreported
    obtain ⟨_, c, _, _, run, alerts, segments, -, -, halerts, hsegments, hall⟩ :=
      analyze_reports_uninitialized_fields hout (i := 0) rfl hidents
    obtain ⟨l, hl⟩ : ∃ l, out.alerts = alerts :: l := by
      cases hlist : out.alerts with
      | nil => rw [hlist] at halerts; cases halerts
      | cons a l => rw [hlist] at halerts; cases halerts; exact ⟨l, rfl⟩
    have hlines : alerts.unassigned.map (·.span) = [⟨2, 0, 1⟩] := by
      simp only [BuildOutput.unassigned, hl, Except.toOption, Option.map_some, List.map_cons,
        Option.some.injEq, List.cons.injEq] at hreported
      exact hreported.1
    cases hall with
    | @cons _ reported _ _ hclass hrest =>
      cases hrest
      obtain rfl : alerts.unassigned = reported := by simpa using hsegments
      have howns : podProgram.owns podDecl.name = true := by decide
      have hreports := hclass
      simp only [ReportsFields, howns, if_true] at hreports
      have hplain : ∀ field ∈ podDecl.fields, Expr.allPlain field.values = true := by
        simp [podDecl, Expr.allPlain]
      obtain ⟨ref, signature, u, -, ids, hids, -, hexact⟩ := hreports hplain
      -- One name is reported, and by its position it is that of the second field.
      rw [hids, List.map_map] at hlines
      obtain ⟨id, rfl, hid⟩ := List.map_eq_singleton_iff.1 hlines
      obtain ⟨hdeclared, hb⟩ := (hexact id).1 (List.mem_singleton_self id)
      have hmem := List.mem_of_find?_eq_some hdeclared
      obtain rfl : id = ⟨"b", ⟨2, 0, 1⟩⟩ := by
        change id.span = _ at hid
        simp only [declaredFields, podDecl, List.flatMap_cons, List.flatMap_nil, List.map_cons,
          List.map_nil, List.append_nil, List.mem_cons, Prod.mk.injEq, List.not_mem_nil] at hmem
        obtain ⟨rfl, -⟩ | ⟨rfl, -⟩ | ⟨rfl, -⟩ | h := hmem
        exacts [absurd hid (by decide), rfl, absurd hid (by decide), h.elim]
      refine ⟨out, alerts, c, _, signature, u, rfl, halerts, hids, hclass, ?_, hb, ?_⟩
      · by_contra ha
        have hmem := (hexact ⟨"a", ⟨1, 0, 1⟩⟩).2 ⟨by decide, ha⟩
        simp at hmem
      · by_contra hc
        have hmem := (hexact ⟨"c", ⟨3, 0, 1⟩⟩).2 ⟨by decide, hc⟩
        simp at hmem

/-! ## Two classes of one name and position

Both hold the one entry that is registered, so both are walked.
-/

/-- A class with a field and with a constructor that assigns nothing. -/
def blankPod : ClassDecl :=
  { podDecl with
    fields := [⟨[⟨"f", ⟨1, 0, 1⟩⟩], some ⟨none, ⟨"number", .synthetic⟩, [], [], [], false, .synthetic⟩,
      [], false, false, .synthetic⟩]
    constructor := some ⟨[], [], [], ⟨2, 0, 1⟩⟩ }

def twinPods : Program := [.level "Main", .classDecl blankPod, .classDecl blankPod]

/-- The fields that an environment has registered for a class. -/
def Environment.fieldsOf? (env : Environment) (name : String) : Option (List String) :=
  (env.classes.get? name).map fun info => info.members.fields.map (·.name)

/-- One field is registered, and it is reported twice. -/
theorem analyze_reports_twin_field_twice :
    .classDecl blankPod ∈ twinPods ∧ twinPods.owns blankPod.name = true ∧
    ∃ out, analyze {} [("main.hyb", twinPods)] = .ok out ∧
      out.registry.envs.map (·.fieldsOf? "Pod") = [some ["f"]] ∧
      out.unassigned = [[⟨1, 0, 1⟩, ⟨1, 0, 1⟩]] := by
  have hbuild : (analyze {} [("main.hyb", twinPods)]).toOption.any (fun out =>
      out.registry.envs.map (·.fieldsOf? "Pod") == [some ["f"]] &&
        out.unassigned == [[⟨1, 0, 1⟩, ⟨1, 0, 1⟩]]) = true := by
    decide +kernel
  obtain ⟨out, hout, htwice⟩ := exists_eq_ok_of_any hbuild
  rw [Bool.and_eq_true, beq_iff_eq, beq_iff_eq] at htwice
  exact ⟨List.mem_cons_of_mem _ (List.mem_cons_self ..), by decide, out, hout, htwice⟩

end HybroidSema
