import HybroidSema.Proofs.AssignedFields
import HybroidSema.Proofs.Bindings
import HybroidSema.Proofs.FieldInitializers
import HybroidSema.Proofs.FirstClaims
import HybroidSema.Proofs.LifecycleTurns
import HybroidSema.Proofs.RegisteredFields

/-!
# The bodies of classes and entities

The scope of a class or entity has its members as variables. The initializers are checked there, then
the constructor or the first spawn function, after which every field that was neither declared with a
value nor assigned is reported, and then the other functions.

* `Members.bound`: the variables that members become.
* `UnassignedFields`: what is reported, read off the declarations, and `unassignedFields_of_marksAll`:
  it is what the variables tell that were assigned since.
* `Inner`: the innermost scope is that of a class or entity, with `Inner.runs_bindMembers` and
  `Inner.runs_checkFieldsInitialized`: what is bound there and what is reported.
* `InBody`: the names that were assigned since the scope was opened, with `InBody.runs_inFunction`: what
  a function adds to them.
* `InBody.runs_methodBodies` and `InBody.runs_turns`: the functions that need not assign fields, by
  induction.
-/

namespace HybroidSema

/-! ## Members as variables -/

/-- The variable of a method. -/
def Method.bound (name : String) (method : Method) : Variable :=
  { name := name
    value := .function method.signature
    span := method.span
    isConst := true }

/-- The variables that the members of a class or entity become. -/
def Members.bound (m : Members) : List (String × Variable) :=
  m.fields.map (fun v => (v.name, v)) ++ m.methods.entries.map fun e => (e.1, e.2.bound e.1)

theorem Members.Registers.tidy {m : Members} {fields : List (Ident × Bool)}
    (h : m.Registers fields) : MembersTidy m.bound where
  nodup := by
    have hnodup := h.nodup
    simpa [Members.bound, Function.comp_def] using hnodup
  constant := by
    simp only [Members.bound, List.mem_append, List.mem_map]
    rintro _ (⟨v, hv, rfl⟩ | ⟨e, -, rfl⟩)
    exacts [h.constant v hv, rfl]

namespace ScopeStack

/-- In the scope of a class or entity its variables are those of the innermost scope. -/
theorem members_eq_current {s : ScopeStack} (h : s.current.tag.container?.isSome) :
    s.members = s.current.bindings.entries := by
  have hnearest : s.nearestContainer? = some s.currentPosition :=
    (innermost?_eq_some_iff ..).2 ⟨⟨s.current, s.get?_currentPosition, h⟩, fun q scope hq hscope =>
      absurd (lt_depth_of_get? hscope) (Nat.not_lt.2 hq)⟩
  rw [members, hnearest, Option.bind_some, get?_currentPosition]
  rfl

end ScopeStack

/-! ## Reports -/

/-- The alert about a field that is not assigned by the function at the given position. -/
def Ident.unassigned (span : Span) (field : Ident) : Alert :=
  { kind := .uninitializedField field.name, span := field.span, more := [span] }

/-- The alerts about the variables of a class or entity that are not assigned. -/
def unassignedIn (span : Span) (l : List (String × Variable)) : List Alert :=
  (Span.sortBy Variable.span ((l.map Prod.snd).filter (!·.isInit))).map fun v =>
    Ident.unassigned span ⟨v.name, v.span⟩

/-- One alert about each field that is declared without a value and that is not assigned, at the position
of the field and with that of the function that was to assign it. -/
def UnassignedFields (fields : List (Ident × Bool)) (assigned : String → Prop) (span : Span)
    (alerts : List Alert) : Prop :=
  ∃ ids : List Ident, alerts = ids.map (Ident.unassigned span) ∧ (ids.map (·.name)).Nodup ∧
    ∀ id, id ∈ ids ↔ fields.find? (·.1.name == id.name) = some (id, false) ∧ ¬assigned id.name

section Reports

variable {names : String → Prop} {l l' : List (String × Variable)}

theorem Marks.varName {a b : String × Variable} (h : Marks names a b) : b.2.name = a.2.name := by
  have hname : b.2.slot.name = a.2.slot.name := congrArg Variable.name h.slot
  exact hname

theorem Marks.varSpan {a b : String × Variable} (h : Marks names a b) : b.2.span = a.2.span := by
  have hspan : b.2.slot.span = a.2.slot.span := congrArg Variable.span h.slot
  exact hspan

theorem MarksAll.map_name_eq (h : MarksAll names l l') :
    l'.map (·.2.name) = l.map (·.2.name) := by
  induction h with
  | nil => rfl
  | cons hab _ ih => rw [List.map_cons, List.map_cons, ih, hab.varName]

/-- The variables that are not assigned after all are those that were not before and that are none of the
given ones. -/
theorem MarksAll.exists_unassigned_iff (h : MarksAll names l l') (id : Ident) :
    (∃ e ∈ l', e.2.isInit = false ∧ Ident.mk e.2.name e.2.span = id) ↔
      ∃ e ∈ l, e.2.isInit = false ∧ ¬names e.1 ∧ Ident.mk e.2.name e.2.span = id := by
  induction h with
  | nil => simp
  | @cons a b _ _ hab _ ih =>
    have hinit : b.2.isInit = false ↔ a.2.isInit = false ∧ ¬names a.1 := by
      rw [← Bool.not_eq_true, hab.init, not_or, Bool.not_eq_true]
    rw [List.exists_mem_cons_iff, List.exists_mem_cons_iff, ih, hab.varName, hab.varSpan, hinit,
      and_assoc]

/-- What is reported where the variables were members before and some were assigned since. -/
theorem unassignedFields_of_marksAll {m : Members} {fields : List (Ident × Bool)}
    (hm : m.Registers fields) (h : MarksAll names m.bound l) (span : Span) :
    UnassignedFields fields names span (unassignedIn span l) := by
  have hsorted := Span.perm_sortBy Variable.span ((l.map Prod.snd).filter (!·.isInit))
  have hbound : m.bound.map (·.2.name) = m.bound.map Prod.fst := by
    simp [Members.bound, Method.bound, Function.comp_def]
  refine ⟨(Span.sortBy Variable.span ((l.map Prod.snd).filter (!·.isInit))).map fun v =>
    ⟨v.name, v.span⟩, ?_, ?_, fun id => ?_⟩
  · rw [List.map_map]
    rfl
  · rw [List.map_map]
    refine ((hsorted.map Variable.name).nodup_iff).2 ?_
    have hnodup : (l.map (·.2.name)).Nodup := by
      rw [h.map_name_eq, hbound]
      exact hm.tidy.nodup
    have hnames : l.map (·.2.name) = (l.map Prod.snd).map Variable.name := by
      rw [List.map_map]
      rfl
    rw [hnames] at hnodup
    exact hnodup.sublist (List.filter_sublist.map _)
  · have hmem : id ∈ (Span.sortBy Variable.span ((l.map Prod.snd).filter (!·.isInit))).map
        (fun v => Ident.mk v.name v.span) ↔
        ∃ e ∈ l, e.2.isInit = false ∧ Ident.mk e.2.name e.2.span = id := by
      rw [(hsorted.map _).mem_iff]
      simp only [List.mem_map, List.mem_filter, Bool.not_eq_true', exists_exists_and_eq_and,
        and_assoc]
    rw [hmem, h.exists_unassigned_iff, hm.find?_eq_some_iff]
    simp only [Members.bound, List.mem_append, List.mem_map]
    constructor
    · rintro ⟨_, ⟨v, hv, rfl⟩ | ⟨e, -, rfl⟩, hinit, hnot, rfl⟩
      exacts [⟨⟨v, hv, hinit, rfl⟩, hnot⟩, absurd hinit Bool.noConfusion]
    · rintro ⟨⟨v, hv, hinit, rfl⟩, hnot⟩
      exact ⟨_, .inl ⟨v, hv, rfl⟩, hinit, hnot, rfl⟩

end Reports

/-! ## The scope of a class or entity -/

namespace Check

variable {α : Type} {c : Context} {s t : State} {o : ScopeStack} {l : List (String × Variable)}

/-- The innermost scope is that of a class or entity with the given variables. -/
structure Inner (c : Context) (s : State) (o : ScopeStack) (l : List (String × Variable)) : Prop where
  live : Live c s o
  container : o.current.tag.container?.isSome
  permitsSelf : o.current.permits.selfRef = true
  members : s.members c = l

/-- After a check that assigns some names, the scope is that of the same class or entity. -/
theorem Inner.fills {names : String → Prop} (h : Inner c s o l) (hf : Fills c s o names t) :
    ∃ o' l', Inner c t o' l' ∧ MarksAll names l l' := by
  obtain ⟨o', halike, hl⟩ := hf.live
  refine ⟨o', t.members c, ⟨hl, ?_, ?_, rfl⟩, h.members ▸ hf.members⟩
  · rw [halike.container?_current]
    exact h.container
  · rw [halike.permits]
    exact h.permitsSelf

theorem Inner.entries_eq {env : Environment} (h : Inner c s o l) (hown : s.own? c = some env) :
    env.scopes.current.bindings.entries = l := by
  obtain ⟨env', hown', -, ho⟩ := h.live.own
  obtain rfl := Option.some.inj (hown.symm.trans hown')
  have hcontainer : env.scopes.current.tag.container?.isSome := by
    rw [ScopeStack.container?_current_of_outline ho]
    exact h.container
  rw [← ScopeStack.members_eq_current hcontainer, ← State.members_eq hown, h.members]

/-- A variable whose name is free is bound without a report. -/
theorem Inner.runs_declare (h : Inner c s o l) {v : Variable} (hfree : v.name ∉ l.map Prod.fst)
    (what : String) :
    Runs (declare v what) c s fun _ t => Inner c t o (l ++ [(v.name, v)]) ∧ t.alerts = s.alerts := by
  obtain ⟨env, hown, -, ho⟩ := h.live.own
  have hentries := h.entries_eq hown
  have hrun := declare_eq_of_free hown (v := v) (by rwa [hentries]) what
  have hcontainer : env.scopes.current.tag.container?.isSome := by
    rw [ScopeStack.container?_current_of_outline ho]
    exact h.container
  obtain ⟨_, t, hrun', -, hl⟩ := (quiet_declare v what : Quiet .checking _) c s o h.live
  obtain rfl : _ = t := (Prod.mk.inj (Except.ok.inj (hrun.symm.trans hrun'))).2
  refine ⟨⟨⟩, _, hrun, ⟨hl, h.container, h.permitsSelf, ?_⟩, rfl⟩
  rw [State.members_eq ((own?_modifyOwn c _ s).trans (congrArg _ hown)),
    ScopeStack.members_eq_current (by rwa [ScopeStack.current_modifyCurrent]),
    ScopeStack.current_modifyCurrent, ← hentries]
  exact Table.entries_insert (by rwa [hentries]) v

/-- Variables with names of their own are bound without a report. -/
theorem Inner.runs_declareAll {ι : Type} {step : ι → Check PUnit} (bound : ι → Variable)
    (h : Inner c s o l) (hstep : ∀ i, ∃ what, step i = declare (bound i) what) (items : List ι)
    (hnodup : (l.map Prod.fst ++ items.map fun i => (bound i).name).Nodup) :
    Runs (items.forM step) c s fun _ t =>
      Inner c t o (l ++ items.map fun i => ((bound i).name, bound i)) ∧ t.alerts = s.alerts :=
  Check.runs_declareAll (I := fun t l => Inner c t o l ∧ t.alerts = s.alerts)
    (fun _ _ _ what ⟨ht, halerts⟩ hfree => (ht.runs_declare hfree what).mono
      fun _ _ ⟨hu, halerts'⟩ => ⟨hu, halerts'.trans halerts⟩)
    bound hstep ⟨h, rfl⟩ items hnodup

/-- The members of a class or entity are bound in its scope without a report. -/
theorem Inner.runs_bindMembers (h : Inner c s o []) {m : Members}
    (hnodup : (m.bound.map Prod.fst).Nodup) :
    Runs (bindMembers m) c s fun _ t => Inner c t o m.bound ∧ t.alerts = s.alerts := by
  rw [Members.bound, List.map_append, List.map_map, List.map_map] at hnodup
  have hfields := h.runs_declareAll (fun v => v) (fun _ => ⟨"field", rfl⟩) m.fields
    (by simpa [Function.comp_def] using hnodup.of_append_left)
  refine hfields.bind fun _ u ⟨hu, halerts⟩ => ?_
  have hmethods := hu.runs_declareAll (fun e : String × Method => e.2.bound e.1)
    (fun _ => ⟨"method", rfl⟩) m.methods.entries
    (by simpa [Function.comp_def, Method.bound] using hnodup)
  exact hmethods.mono fun _ v ⟨hv, halerts'⟩ => ⟨hv, halerts'.trans halerts⟩

/-- The report about fields that are not assigned. -/
theorem Inner.runs_checkFieldsInitialized (h : Inner c s o l) (span : Span) :
    Runs (checkFieldsInitialized span) c s fun _ t =>
      Inner c t o l ∧ t.unassigned = s.unassigned ++ unassignedIn span l := by
  have halerts (fields : List Variable) (s : State) (h : Inner c s o l) :
      Runs (fields.forM fun v => alert (Ident.unassigned span ⟨v.name, v.span⟩)) c s fun _ t =>
        Inner c t o l ∧
          t.unassigned = s.unassigned ++ fields.map fun v => Ident.unassigned span ⟨v.name, v.span⟩ := by
    induction fields generalizing s with
    | nil => exact .pure ⟨h, by simp⟩
    | cons field rest ih =>
      refine Runs.bind (runs_modify _) fun _ u hu => ?_
      subst hu
      have hrest := ih { s with alerts := s.alerts.push (Ident.unassigned span ⟨field.name, field.span⟩) }
        ⟨h.live.of_envs_eq rfl, h.container, h.permitsSelf, h.members⟩
      refine hrest.mono fun _ t ⟨ht, hadded⟩ => ⟨ht, hadded.trans ?_⟩
      rw [List.map_cons, List.append_cons]
      congr 1
      exact s.alerts.filter_push _ _
  refine (runs_scopes h.live).bind fun stack u hu => ?_
  obtain ⟨rfl, -, env, hown, rfl⟩ := hu
  have hvalues : env.scopes.current.bindings.values = l.map Prod.snd := by
    rw [Table.values, h.entries_eq hown]
  rw [hvalues]
  exact halerts _ _ h

/-! ## Functions of a class or entity -/

/-- The innermost scope is that of a class or entity with the given members, of which the given ones
were assigned since it was opened. -/
def InBody (c : Context) (s : State) (m : Members) (names : String → Prop) : Prop :=
  ∃ o l, Inner c s o l ∧ MarksAll names m.bound l

section InBody

variable {m : Members} {names : String → Prop} {fields : List (Ident × Bool)} {stmts : List Stmt}

theorem Inner.inBody (h : Inner c s o m.bound) : InBody c s m ⊥ := ⟨o, _, h, .refl _⟩

theorem InBody.runs {others : String → Prop} {check : Check α} (h : InBody c s m names)
    (hcheck : ∀ o l, Inner c s o l → MarksAll names m.bound l →
      Runs check c s fun _ t => Fills c s o others t) :
    Runs check c s fun _ t => InBody c t m (names ⊔ others) ∧ t.unassigned = s.unassigned := by
  obtain ⟨o, l, hinner, hmarks⟩ := h
  refine (hcheck o l hinner hmarks).mono fun _ t ht => ?_
  obtain ⟨o', l', hinner', hmarks'⟩ := hinner.fills ht
  exact ⟨⟨o', l', hinner', hmarks.trans hmarks'⟩, ht.unassigned⟩

/-- A check that assigns nothing. -/
theorem InBody.runs_fixes {check : Check α} (h : InBody c s m names) (hcheck : Fixes check) :
    Runs check c s fun _ t => InBody c t m names ∧ t.unassigned = s.unassigned := by
  have hruns := h.runs fun o _ hinner _ => hcheck c s o hinner.live
  rwa [sup_bot_eq] at hruns

/-- A function of the class or entity. -/
theorem InBody.runs_inFunction (h : InBody c s m names) (hm : m.Registers fields)
    (signature : Signature) (params : List Param) (span : Span) (stmts : List Stmt) :
    Runs (inFunction signature params span (body stmts false)) c s fun _ t =>
      InBody c t m (names ⊔ markings [.functionBody signature params stmts] c s) ∧
        t.unassigned = s.unassigned :=
  h.runs fun _ _ hinner hmarks => runs_inFunction_fills signature params span
    (assigning_body stmts false) hinner.live (fun _ => hinner.permitsSelf)
      (hinner.members ▸ hm.tidy.marked hmarks)

/-- The report after the function that must assign the fields. -/
theorem InBody.runs_checkFieldsInitialized (h : InBody c s m names) (hm : m.Registers fields)
    (span : Span) : Runs (checkFieldsInitialized span) c s fun _ t => InBody c t m names ∧
      ∃ reported, t.unassigned = s.unassigned ++ reported ∧
        UnassignedFields fields names span reported := by
  obtain ⟨o, l, hinner, hmarks⟩ := h
  exact (hinner.runs_checkFieldsInitialized span).mono fun _ t ⟨ht, hreported⟩ =>
    ⟨⟨o, l, ht, hmarks⟩, _, hreported, unassignedFields_of_marksAll hm hmarks span⟩

theorem fixes_methodSignature (members : Members) (name : Ident) (generics : List Ident)
    (params : List Param) (returns : List TypeExpr) :
    Fixes (methodSignature members name generics params returns) := by
  have hsignature := fixes_resolveSignature generics params returns
  unfold methodSignature
  split
  · split
    · exact Quiet.fixes (.pure _)
    · exact hsignature
  · exact hsignature

theorem fixes_turnSignature (entity : EntityInfo) (turn : LifecycleDecl × Bool) :
    Fixes (turnSignature entity turn) := by
  unfold turnSignature
  split
  · exact Quiet.fixes (.pure _)
  · exact fixes_resolveSignature _ _ _

/-- The methods report no field. -/
theorem InBody.runs_methodBodies (h : InBody c s m names) (hm : m.Registers fields)
    (decls : List FunctionDecl) (members : Members) :
    Runs (methodBodies decls members) c s fun _ t => t.unassigned = s.unassigned := by
  induction decls generalizing s names with
  | nil => exact .pure rfl
  | cons decl rest ih =>
    obtain ⟨name, generics, params, returns, stmts, isPub, span⟩ := decl
    have hsignature := fixes_methodSignature members name generics params returns
    exact (h.runs_fixes hsignature).bind fun signature _ ⟨ht, hsame⟩ =>
      (ht.runs_inFunction hm signature params span stmts).bind fun _ _ ⟨hu, hsame'⟩ =>
        (ih hu).bind fun _ _ hv => .pure (hv.trans (hsame'.trans hsame))

theorem InBody.runs_walkTurn (h : InBody c s m names) (hm : m.Registers fields)
    (entity : EntityInfo) (turn : LifecycleDecl × Bool) :
    Runs (walkTurn entity turn) c s fun _ t =>
      (∃ assigned, InBody c t m assigned) ∧ t.unassigned = s.unassigned :=
  (h.runs_fixes (fixes_turnSignature entity turn)).bind fun signature _ ⟨ht, hsame⟩ =>
    (ht.runs_inFunction hm signature turn.1.params turn.1.span turn.1.body).bind
      fun _ _ ⟨hu, hsame'⟩ => .pure ⟨⟨_, hu⟩, hsame'.trans hsame⟩

/-- The lifecycle functions other than the one that must assign the fields report none. -/
theorem InBody.runs_turns (h : InBody c s m names) (hm : m.Registers fields)
    (turns : List (LifecycleDecl × Bool)) (entity : EntityInfo) :
    Runs (turns.mapM (walkTurn entity)) c s fun _ t =>
      (∃ assigned, InBody c t m assigned) ∧ t.unassigned = s.unassigned := by
  induction turns generalizing s names with
  | nil => exact .pure ⟨⟨_, h⟩, rfl⟩
  | cons turn rest ih =>
    rw [List.mapM_cons]
    exact (h.runs_walkTurn hm entity turn).bind fun _ t ⟨⟨_, ht⟩, hsame⟩ => (ih ht).bind fun _ u ⟨hu, hsame'⟩ =>
      .pure ⟨hu, hsame'.trans hsame⟩

end InBody

end Check

end HybroidSema
