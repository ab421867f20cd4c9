import HybroidSema.Check.Tree
import HybroidSema.Proofs.Sound

/-!
# The parts of a walk cannot end the build

For every function that the walk over a tree is made of: it keeps states good, and the types and
values in its result are declared. The functions follow in the order of their modules.

What the walk learns about an expression is the pair of the resolved node and its value; only the
value refers to declarations, so `Yields` says nothing about the node.
-/

namespace HybroidSema.Check

variable {α β : Type} {m : Check α} {k : Demands} {c : Context} {r : Registry} {d : List Bool}
  {s s' : State}

/-! ## Links -/

theorem isLocal_fail (error : CompileError) : IsLocal c (fail error) :=
  isLocal_modify (fun _ _ => rfl) fun _ => ⟨List.prefix_rfl, rfl⟩

/-- An error that ends the build, where nothing forbids it. -/
theorem sound_fail (error : CompileError) (h : ¬k.fits) :
    Sound k c r d (fail error) fun _ _ => True := by
  refine .of_local (isLocal_fail error) fun s u s' hs _ hrun => ?_
  cases hrun
  exact ⟨hs.of_envs_eq rfl rfl rfl (fun hk => absurd hk h) hs.narrowings hs.proper, .refl _, trivial⟩

/-- A run of `walkOther` is a walk of the target. -/
theorem walkOther_apply (c : Context) (s : State) (target : EnvId) :
    walkOther target c s = c.walk target s.session >>= fun p =>
      (match p.1 with
        | some error => fail error
        | none => Pure.pure ()) c { s with session := p.2 } := by
  change ((c.walk target s.session >>= fun a => .ok (a, s)) >>= _) = _
  cases c.walk target s.session <;> rfl

/-- Walking an environment of a session that meets the demands. -/
theorem steady_walkOther {target : EnvId} (hready : s.session.ReadyFor k)
    (h : (s.session.registry.get? target).isSome) : Steady k c (walkOther target) s := by
  refine fun u s' hrun => ?_
  rw [walkOther_apply] at hrun
  cases hwalk : c.walk target s.session with
  | error e =>
    rw [hwalk] at hrun
    cases hrun
  | ok p =>
    obtain ⟨result, session⟩ := p
    rw [hwalk] at hrun
    have hstart : s.alerts.alerts <+: s'.alerts.alerts := by
      cases result <;> cases hrun <;> exact List.prefix_rfl
    refine ⟨hstart, fun _ hreached b walk hw => ?_⟩
    have hsession : s'.session = session := by
      cases result <;> cases hrun <;> rfl
    obtain ⟨hbefore, hswitched⟩ :=
      hw target s.session result session hready h hwalk (hsession ▸ hreached.session)
    refine ⟨hbefore, ?_⟩
    rw [walkOther_apply]
    change walk target (s.session.prunes b) >>= _ = _
    rw [hswitched]
    cases result <;> cases hrun <;> rfl

/-- Walking an environment that is registered. -/
theorem sound_walkOther {target : EnvId} (h : (r.get? target).isSome) :
    Sound k c r d (walkOther target) fun _ _ => True := by
  refine fun s hs hr => ⟨⟨fun walk hw => ?_, steady_walkOther hs.ready (hr.envs target h)⟩,
    fun u s' hrun => ?_⟩
  · rw [walkOther_apply, walkOther_apply]
    dsimp only
    rw [hw target s.session hs.ready (hr.envs target h)]
    cases c.walk target s.session with
    | error e => rfl
    | ok p =>
      obtain ⟨result, session⟩ := p
      cases result <;> rfl
  obtain ⟨env, hown, hstate, hd⟩ := hs.own
  rw [walkOther_apply] at hrun
  cases hwalk : c.walk target s.session with
  | error e =>
    rw [hwalk] at hrun
    cases hrun
  | ok p =>
    rw [hwalk] at hrun
    obtain ⟨result, session⟩ := p
    obtain ⟨hresult, hready, hext, hkeeps⟩ := hs.safe target s.session result session hs.ready
      (hr.envs target h) hwalk
    have htidy : Tidy k c d { s with session := session } :=
      ⟨⟨env, hkeeps.started _ env hown hstate, hstate, hd⟩,
        fun n hn => hext.entities _ (hs.narrowings n hn), hs.fatal, hready, hs.safe, hs.proper⟩
    cases result with
    | none =>
      cases hrun
      exact ⟨htidy, hext, trivial⟩
    | some error =>
      have hfits : ¬k.fits := fun hk => nomatch hresult hk
      obtain ⟨htidy', hext', -⟩ := (sound_fail error hfits).apply htidy (.refl _) hrun
      exact ⟨htidy', hext.trans hext', trivial⟩

/-- An environment that was not started is registered. -/
theorem sound_isStarted (target : EnvId) :
    Sound k c r d (isStarted target) fun r' started =>
      started = false → (r'.get? target).isSome := by
  refine sound_registry.bind fun _ r₁ _ h => ?_
  obtain ⟨rfl, -⟩ := h
  split
  · next env he => exact .pure fun r' hr _ => hr.envs target (by rw [he]; rfl)
  · exact .pure fun _ _ => nofun

theorem sound_require (target : EnvId) (span : Span) :
    Sound k c r d (require target span) fun _ _ => True := by
  refine sound_registry.bind fun _ r₁ _ _ => sound_ownId.bind fun _ r₂ _ _ => ?_
  split
  · next kind hkind =>
    exact (sound_report _ _ fun _ => Registry.isProper_accessError? hkind).bind fun _ _ _ _ =>
      .pure fun _ _ => trivial
  · refine (sound_modifyEnvironment' fun r' env _ ⟨_, _, hv, hd⟩ => ?_).bind fun _ _ _ _ =>
      .pure fun _ _ => trivial
    unfold Environment.require
    split
    · exact ⟨rfl, hd, .of_eq rfl rfl rfl rfl, hv.scopes, hv.classes, hv.entities, hv.enums,
        hv.aliases, hv.imports⟩
    · exact ⟨rfl, hd, .refl _, hv⟩

theorem sound_addImport {target : EnvId} (h : r.Named target) :
    Sound k c r d (modifyEnvironment (·.addImport target)) fun _ _ => True := by
  refine sound_modifyEnvironment' fun r' env hr ⟨_, _, hv, hd⟩ => ?_
  unfold Environment.addImport
  split
  · refine ⟨rfl, hd, .of_eq rfl rfl rfl rfl, hv.scopes, hv.classes, hv.entities, hv.enums,
      hv.aliases, fun other ho => ?_⟩
    rcases List.mem_append.1 ho with ho | ho
    · exact hv.imports other ho
    · rw [List.mem_singleton.1 ho]
      exact hr.named h
  · exact ⟨rfl, hd, .refl _, hv⟩

theorem sound_markCycle (a b : EnvId) :
    Sound k c r d (modifyRegistry (·.markCycle a b)) fun _ _ => True := by
  refine .of_local (isLocal_modify (fun _ _ => rfl) fun _ => ⟨List.prefix_rfl, rfl⟩)
    fun s u s' hs _ hrun => ?_
  cases hrun
  have henvs := s.session.registry.envs_markCycle a b
  exact ⟨hs.of_envs_eq henvs rfl rfl hs.fatal hs.narrowings hs.proper, .of_envs_eq henvs, trivial⟩

theorem sound_ensureWalked (target : EnvId) (span : Span) :
    Sound k c r d (ensureWalked target span) fun _ _ => True := by
  refine sound_ownId.bind fun own r₁ _ _ => ?_
  split
  · exact .pure fun _ _ => trivial
  · refine sound_registry.bind fun _ r₂ _ _ => ?_
    split
    · split
      · exact (sound_markCycle _ _).bind fun _ _ _ _ => sound_report _ _ fun _ => rfl
      · exact .pure fun _ _ => trivial
    · refine (sound_isStarted target).bind fun started r₃ _ h => ?_
      split
      · next hstarted => exact sound_walkOther (h (by simpa using hstarted))
      · exact .pure fun _ _ => trivial

theorem sound_link (target : EnvId) (span : Span) :
    Sound k c r d (link target span) fun _ _ => True := by
  refine sound_ownId.bind fun own r₁ _ _ => ?_
  split
  · exact .pure fun _ _ => trivial
  · refine (sound_require _ _).bind fun allowed r₂ _ _ => ?_
    split
    · exact (sound_ensureWalked _ _).bind fun _ _ _ _ => .pure fun _ _ => trivial
    · exact .pure fun _ _ => trivial

theorem sound_useTarget? (stmt : UseStmt) :
    Sound k c r d (useTarget? stmt) fun r' found => ∀ target ∈ found, r'.Named target := by
  refine sound_registry.bind fun _ r₁ _ h => ?_
  obtain ⟨rfl, hvalid⟩ := h
  split
  · next target htarget =>
    refine sound_ownId.bind fun own r₂ h₂ _ => .pure fun _ hr other hother => ?_
    split at hother
    · cases hother
    · cases hother
      exact hr.named (h₂.named (hvalid.named htarget))
  · exact (sound_report _ _ fun _ => rfl).bind fun _ _ _ _ => .pure fun _ _ => nofun

theorem sound_useEnvironment (stmt : UseStmt) :
    Sound k c r d (useEnvironment stmt) fun _ _ => True := by
  refine (sound_useTarget? stmt).bind fun target r₁ _ htarget => ?_
  split
  · refine (sound_link _ _).bind fun linked r₂ h₂ _ => ?_
    split
    · exact sound_addImport (h₂.named (htarget _ rfl))
    · exact .pure fun _ _ => trivial
  · exact .pure fun _ _ => trivial

/-! ## Value lists -/

/-- The value of a checked expression may be several fine ones. -/
def Yields (k : Demands) (r : Registry) (checked : Expr × Value) : Prop :=
  checked.2.Loose k.plain r

/-- The value of an expression that must have one is fine. -/
def YieldsOne (k : Demands) (r : Registry) (checked : Expr × Value) : Prop :=
  checked.2.Fine k.plain r

/-- Every value of a list is fine. -/
def YieldsAll (k : Demands) (r : Registry) (values : List (Value × Span)) : Prop :=
  ∀ p ∈ values, p.1.Fine k.plain r

theorem YieldsAll.mono {r' : Registry} (h : r.Extends r') {values : List (Value × Span)}
    (hv : YieldsAll k r values) : YieldsAll k r' values :=
  fun p hp => (hv p hp).mono h

theorem YieldsAll.typesOf {values : List (Value × Span)} (h : YieldsAll k r values) :
    ∀ ty ∈ typesOf values, ty.Declared r := by
  intro ty hty
  obtain ⟨p, hp, rfl⟩ := List.mem_map.1 hty
  exact (h p hp).ty

theorem sound_expectSingle {value : Value} (h : value.Loose k.plain r) (span : Span) :
    Sound k c r d (expectSingle value span) (Value.Fine k.plain) := by
  unfold expectSingle
  split
  · exact (sound_report _ _ fun _ => rfl).bind fun _ _ _ _ => .pure fun _ _ => Value.fine_invalid
  · exact .pure fun _ hr => (h.mono hr).single

theorem Sound.single {checked : Check (Expr × Value)} (h : Sound k c r d checked (Yields k)) :
    Sound k c r d (single checked) (YieldsOne k) :=
  h.bind fun _ _ _ hv => (sound_expectSingle hv _).bind fun _ _ _ hv => .pure fun _ hr => hv.mono hr

theorem sound_checkValueCount (expected : Nat) (values : List (Value × Span)) (span : Span)
    (context : String) :
    Sound k c r d (checkValueCount expected values span context) fun _ _ => True := by
  unfold checkValueCount
  dsimp only
  split
  · exact (sound_report _ _ fun _ => rfl).bind fun _ _ _ _ => .pure fun _ _ => trivial
  · split
    · exact (sound_report _ _ fun _ => rfl).bind fun _ _ _ _ => .pure fun _ _ => trivial
    · exact .pure fun _ _ => trivial

theorem sound_checkType (expected got : Ty) (context : String) (span : Span) :
    Sound k c r d (checkType expected got context span) fun _ _ => True := by
  unfold checkType
  split
  · next hagrees => exact sound_report _ _ fun _ =>
      (all_isInvalid_of_not_agrees (by simpa using hagrees)).2
  · exact .pure fun _ _ => trivial

theorem sound_checkValueTypes (expected : List Ty) (values : List (Value × Span))
    (context : String) :
    Sound k c r d (checkValueTypes expected values context) fun _ _ => True :=
  .forM (P := fun _ => True) (fun _ _ => trivial) fun _ _ _ _ => sound_checkType _ _ _ _

/-! ## Names -/

theorem Library.fine_binding? {l : Library} {name : String} {v : Variable}
    (h : l.binding? name = some v) : v.Fine k.plain r :=
  ⟨Library.fine_of_binding? h, fun _ => (Library.declared_of_binding? (r := r) h).2.1⟩

theorem sound_foreignVariable? (target : EnvId) (name : String) :
    Sound k c r d (foreignVariable? target name) fun r' found => ∀ v ∈ found, v.Fine k.plain r' := by
  unfold foreignVariable?
  split
  · exact .pure fun _ _ v hv => Library.fine_binding? hv
  · refine sound_registry.bind fun _ r₁ _ h => .pure fun _ hr v hv => ?_
    obtain ⟨rfl, hvalid⟩ := h
    obtain ⟨env, he, hv⟩ := Option.bind_eq_some_iff.1 hv
    exact (hvalid.rootVariable? he hv).mono hr

theorem sound_selfField (id : Ident) (owner : DeclRef) (kind : NamedKind) {value : Value}
    (h : value.Fine k.plain r) : Sound k c r d (selfField id owner kind value) (YieldsOne k) := by
  refine sound_scopes.bind fun stack r₁ h₁ _ => ?_
  dsimp only
  split
  · exact (sound_report _ _ fun _ => rfl).bind fun _ _ _ _ => .pure fun _ _ => Value.fine_invalid
  · refine (sound_members? _ _).bind fun members r₂ h₂ _ => .pure fun r' hr => ?_
    have hvalue := h.mono ((h₁.trans h₂).trans hr)
    unfold YieldsOne
    dsimp only
    split
    · split
      · exact ⟨Signature.declared_withOwner hvalue.declared _ _, fun _ => rfl⟩
      · exact hvalue
    · exact hvalue

theorem sound_scopedName (id : Ident) (position : Nat) :
    Sound k c r d (scopedName id position) (YieldsOne k) := by
  refine sound_scopes.bind fun stack r₁ h₁ hstack => ?_
  split
  · exact .pure fun _ _ => Value.fine_invalid
  · next binding hb =>
    have hvalue := (hstack.1.binding? hb).value
    have hused : Sound k c r₁ d
        (modifyScopes (·.modifyVariable position id.name fun v => { v with isUsed := true }))
        fun _ _ => True :=
      sound_modifyScopes fun _ _ _ h =>
        h.modifyVariable position id.name (fun v hv => ⟨hv.value, hv.constant⟩) fun _ hn => hn
    refine hused.bind fun _ r₂ h₂ _ => ?_
    split
    · exact .pure fun _ hr => (hvalue.mono h₂).mono hr
    · exact sound_selfField _ _ _ (hvalue.mono h₂)
    · exact .pure fun _ hr => (hvalue.mono h₂).mono hr

theorem sound_importedVariable? (id : Ident) (imports : List EnvId) :
    Sound k c r d (importedVariable? id imports) fun r' found => ∀ p ∈ found, p.2.Fine k.plain r' := by
  induction imports generalizing r with
  | nil => exact .pure fun _ _ => nofun
  | cons target rest ih =>
    refine (sound_foreignVariable? target id.name).bind fun found r₁ _ h => ?_
    split
    · exact ih
    · next binding =>
      have hv := h binding rfl
      have hdone (r' : Registry) (hr : r₁.Extends r') :
          Sound k c r' d (pure (some (target, binding))) fun r' found => ∀ p ∈ found, p.2.Fine k.plain r' :=
        .pure fun _ hr' p hp => by
          cases hp
          exact (hv.mono hr).mono hr'
      split
      · exact sound_registry.bind fun _ r₂ h₂ _ => (sound_report _ _ fun _ => rfl).bind fun _ r₃ h₃ _ =>
          hdone r₃ (h₂.trans h₃)
      · exact hdone r₁ (.refl _)

theorem sound_importedEnum? (name : String) (imports : List EnvId) :
    Sound k c r d (importedEnum? name imports) fun r' found => ∀ p ∈ found, r'.HasEnum p.2.ty := by
  induction imports generalizing r with
  | nil => exact .pure fun _ _ => nofun
  | cons target rest ih =>
    refine (sound_enum? ⟨target, name⟩).bind fun found r₁ _ h => ?_
    split
    · exact ih
    · next info hinfo =>
      refine .pure fun _ hr p hp => ?_
      cases hp
      exact hr.enums _ (h info (Option.filter_eq_some_iff.1 hinfo).1)

theorem sound_qualify (target : EnvId) (id : Ident) :
    Sound k c r d (qualify target id) fun _ _ => True :=
  sound_registry.bind fun _ _ _ _ => .pure fun _ _ => trivial

theorem sound_enumName (id : Ident) : Sound k c r d (enumName id) (YieldsOne k) := by
  refine sound_environment.bind fun env r₁ h₁ ⟨_, _, hv, _⟩ => ?_
  split
  · next info hi => exact .pure fun _ hr => ⟨hr.enums _ (hv.enums.get? hi), fun _ => rfl⟩
  · refine (sound_importedEnum? _ _).bind fun found r₂ _ h => ?_
    split
    · next target info =>
      have hinfo := h (target, info) rfl
      refine sound_ownId.bind fun own r₃ h₃ _ => ?_
      split
      · exact .pure fun _ hr => ⟨hr.enums _ (h₃.enums _ hinfo), fun _ => rfl⟩
      · exact (sound_qualify _ _).bind fun _ r₄ h₄ _ => .pure fun _ hr =>
          ⟨hr.enums _ (h₄.enums _ (h₃.enums _ hinfo)), fun _ => rfl⟩
    · exact (sound_report _ _ fun _ => rfl).bind fun _ _ _ _ => .pure fun _ _ => Value.fine_invalid

theorem sound_identifier (id : Ident) : Sound k c r d (identifier id) (YieldsOne k) := by
  refine sound_scopes.bind fun stack r₁ h₁ _ => ?_
  split
  · exact sound_scopedName _ _
  · split
    · next binding hb => exact .pure fun _ _ => (Library.fine_binding? hb).value
    · refine sound_environment.bind fun env r₂ _ _ =>
        (sound_importedVariable? _ _).bind fun found r₃ _ h => ?_
      split
      · next target binding =>
        have hvalue := (h (target, binding) rfl).value
        split
        · exact .pure fun _ hr => hvalue.mono hr
        · exact (sound_qualify _ _).bind fun _ r₄ h₄ _ => .pure fun _ hr =>
            (hvalue.mono h₄).mono hr
      · exact sound_enumName _

theorem sound_builtinValue (id : Ident) :
    Sound k c r d (builtinValue id) (Value.Fine k.plain) := by
  unfold builtinValue
  split
  · next binding hb => exact .pure fun _ _ => (Library.fine_binding? hb).value
  · exact (sound_report _ _ fun _ => rfl).bind fun _ _ _ _ => .pure fun _ _ => Value.fine_invalid

theorem sound_qualified? (target : EnvId) (name : String) :
    Sound k c r d (qualified? target name) fun r' found =>
      ∀ q ∈ found, q.value.Fine k.plain r' := by
  refine (sound_foreignVariable? target name).bind fun found r₁ _ h => ?_
  split
  · next binding =>
    refine .pure fun _ hr q hq => ?_
    cases hq
    exact (h binding rfl).value.mono hr
  · refine (sound_enum? _).bind fun found r₂ _ h => ?_
    split
    · next info =>
      refine .pure fun _ hr q hq => ?_
      cases hq
      exact ⟨hr.enums _ (h info rfl), fun _ => rfl⟩
    · exact .pure fun _ _ => nofun

theorem sound_qualifiedName (env name : Ident) (span : Span) :
    Sound k c r d (qualifiedName env name span) (YieldsOne k) := by
  refine sound_registry.bind fun _ r₁ _ _ => ?_
  split
  · exact (sound_report _ _ fun _ => rfl).bind fun _ _ _ _ => .pure fun _ _ => Value.fine_invalid
  · refine (sound_link _ _).bind fun linked r₂ _ _ => ?_
    split
    · exact .pure fun _ _ => Value.fine_invalid
    · refine (sound_qualified? _ _).bind fun found r₃ _ h => ?_
      split
      · exact (sound_report _ _ fun _ => rfl).bind fun _ _ _ _ => .pure fun _ _ => Value.fine_invalid
      · next found =>
        have hvalue := h found rfl
        refine sound_ownId.bind fun own r₄ h₄ _ => .guard (sound_report _ _ fun _ => rfl) fun r₅ h₅ => ?_
        have hvalue := (hvalue.mono h₄).mono h₅
        split
        · exact .pure fun _ hr => hvalue.mono hr
        · exact .pure fun _ hr => hvalue.mono hr

/-- The instance that `self` is belongs to a declared class or entity. -/
theorem sound_selfValue (span : Span) :
    Sound k c r d (selfValue span) fun r' p => p.2.Fine k.plain r' := by
  refine sound_scopes.bind fun stack r₁ _ _ => ?_
  split
  · exact (sound_report _ _ fun _ => rfl).bind fun _ _ _ _ => .pure fun _ _ => Value.fine_invalid
  · refine sound_scopes.bind fun stack r₂ _ hstack => ?_
    split
    · next ref hc => exact .pure fun _ hr => ⟨hr.classes _ (hstack.1.container? hc), fun _ => rfl⟩
    · next ref hc => exact .pure fun _ hr => ⟨hr.entities _ (hstack.1.container? hc), fun _ => rfl⟩
    · exact (sound_report _ _ fun _ => rfl).bind fun _ _ _ _ => .pure fun _ _ => Value.fine_invalid

/-! ## Written types -/

theorem sound_declaredIn? (target : EnvId) (name : String) :
    Sound k c r d (declaredIn? target name) fun r' found => ∀ t ∈ found, t.ty.Declared r' := by
  unfold declaredIn?
  split
  · refine .pure fun _ _ t ht => ?_
    obtain ⟨ty, hty, rfl⟩ := Option.map_eq_some_iff.1 ht
    exact Library.declared_type? hty
  · refine sound_registry.bind fun _ r₁ _ h => .pure fun _ hr t ht => ?_
    obtain ⟨rfl, hvalid⟩ := h
    obtain ⟨env, he, ht⟩ := Option.bind_eq_some_iff.1 ht
    exact (hvalid.declaredType? he ht).mono hr

theorem sound_qualifiedType (env name : Ident) :
    Sound k c r d (qualifiedType env name) Ty.Declared := by
  refine sound_registry.bind fun _ r₁ _ _ => ?_
  split
  · exact (sound_report _ _ fun _ => rfl).bind fun _ _ _ _ => .pure fun _ _ => trivial
  · refine (sound_link _ _).bind fun linked r₂ _ _ => ?_
    split
    · refine (sound_declaredIn? _ _).bind fun found r₃ _ h => ?_
      split
      · next declared =>
        have hty := h declared rfl
        refine sound_ownId.bind fun own r₄ h₄ _ => .guard (sound_report _ _ fun _ => rfl) fun r₅ h₅ => ?_
        exact .pure fun _ hr => ((hty.mono h₄).mono h₅).mono hr
      · exact (sound_report _ _ fun _ => rfl).bind fun _ _ _ _ => .pure fun _ _ => trivial
    · exact .pure fun _ _ => trivial

theorem sound_importedType? (name : Ident) (imports : List EnvId)
    {found : Option (EnvId × Ty)} (h : ∀ p ∈ found, p.2.Declared r) :
    Sound k c r d (importedType? name imports found) fun r' found =>
      ∀ ty ∈ found, ty.Declared r' := by
  induction imports generalizing r found with
  | nil =>
    refine .pure fun _ hr ty hty => ?_
    obtain ⟨p, hp, rfl⟩ := Option.map_eq_some_iff.1 hty
    exact (h p hp).mono hr
  | cons target rest ih =>
    unfold importedType?
    refine (sound_isStarted target).bind fun started r₁ h₁ _ =>
      .guard (sound_ensureWalked _ _) fun r₂ h₂ => (sound_declaredIn? _ _).bind
        fun declared r₃ h₃ hd => ?_
    have hfound : ∀ p ∈ found, p.2.Declared r₃ := fun p hp =>
      (h p hp).mono ((h₁.trans h₂).trans h₃)
    dsimp only
    split
    · exact ih hfound
    · next declared hdeclared =>
      refine ih fun p hp => ?_
      cases hp
      exact hd declared (Option.filter_eq_some_iff.1 hdeclared).1
    · next first ty _ =>
      refine sound_registry.bind fun _ r₄ h₄ _ => (sound_report _ _ fun _ => rfl).bind fun _ r₅ h₅ _ =>
        .pure fun _ hr ty hty => ?_
      cases hty
      exact (((hfound (first, ty) rfl).mono h₄).mono h₅).mono hr

theorem sound_namedType (name : Ident) : Sound k c r d (namedType name) Ty.Declared := by
  refine sound_scopes.bind fun stack r₁ _ _ => ?_
  split
  · exact .pure fun _ _ => trivial
  · refine sound_environment.bind fun env r₂ _ ⟨hvalid, he, _, _⟩ => ?_
    split
    · next declared hd => exact .pure fun _ hr => (hvalid.declaredType? he hd).mono hr
    · split
      · next info hi => exact .pure fun _ _ => Library.declared_alias? hi
      · refine (sound_importedType? name _ (by simp)).bind fun found r₃ _ h => ?_
        split
        · next ty => exact .pure fun _ hr => (h ty rfl).mono hr
        · exact (sound_report _ _ fun _ => rfl).bind fun _ _ _ _ => .pure fun _ _ => trivial

theorem declared_keywordType? {name : String} {ty : Ty} (h : keywordType? name = some ty) :
    ty.Declared r := by
  unfold keywordType? at h
  split at h <;> cases h <;> trivial

theorem sound_resolveTypes_of {written : List TypeExpr}
    (h : ∀ w ∈ written, ∀ r, Sound k c r d (resolveType w) Ty.Declared) :
    Sound k c r d (resolveTypes written) Ty.AllDeclared := by
  induction written generalizing r with
  | nil => exact .pure fun _ _ => trivial
  | cons first rest ih =>
    exact (h first (by simp) r).bind fun _ _ _ hty => (ih fun w hw => h w (by simp [hw])).bind
      fun _ _ h₂ htys => .pure fun _ hr => ⟨(hty.mono h₂).mono hr, htys.mono hr⟩

mutual
theorem sound_resolveType_in (written : TypeExpr) (r : Registry) :
    Sound k c r d (resolveType written) Ty.Declared :=
  match written with
  | ⟨env, name, wrapped, params, returns, isVariadic, span⟩ => by
    have hwrapped := sound_resolveType_of_mem wrapped
    have hparams (r : Registry) := sound_resolveTypes_of (r := r) (sound_resolveType_of_mem params)
    have hreturns (r : Registry) :=
      sound_resolveTypes_of (r := r) (sound_resolveType_of_mem returns)
    have hdone (ty : Ty) (r : Registry) (h : ty.Declared r) :
        Sound k c r d (pure (if isVariadic then .variadic ty else ty)) Ty.Declared :=
      .pure fun r' hr => by
        split
        · exact h.mono hr
        · exact h.mono hr
    unfold resolveType
    dsimp only
    split
    · exact (sound_qualifiedType _ _).bind fun ty r₁ _ h => hdone ty r₁ h
    · next kind _ =>
      split
      · next elem =>
        exact (hwrapped elem (by simp) r).bind fun ty r₁ _ h => hdone (.container kind ty) r₁ h
      · exact (sound_report _ _ fun _ => rfl).bind fun _ r₁ _ _ => hdone .invalid r₁ trivial
    · refine .guard (sound_report _ _ fun _ => rfl) fun r₁ _ => ?_
      split
      · next ty hty => exact hdone ty r₁ (declared_keywordType? hty)
      · split
        · exact (hparams _).bind fun params r₂ h₂ hp => (hreturns _).bind fun returns r₃ h₃ hr =>
            hdone (.fn params returns) r₃ ⟨hp.mono h₃, hr⟩
        · exact (sound_namedType _).bind fun ty r₂ _ h => hdone ty r₂ h
  termination_by structural written

theorem sound_resolveType_of_mem (written : List TypeExpr) :
    ∀ w ∈ written, ∀ r, Sound k c r d (resolveType w) Ty.Declared :=
  match written with
  | [] => by simp
  | first :: rest => by
    have hfirst := sound_resolveType_in first
    have hrest := sound_resolveType_of_mem rest
    intro w hw
    rcases List.mem_cons.1 hw with rfl | hw
    · exact hfirst
    · exact hrest w hw
  termination_by structural written
end

theorem sound_resolveType (written : TypeExpr) : Sound k c r d (resolveType written) Ty.Declared :=
  sound_resolveType_in written r

theorem sound_resolveTypes (written : List TypeExpr) :
    Sound k c r d (resolveTypes written) Ty.AllDeclared :=
  sound_resolveTypes_of (sound_resolveType_of_mem written)

theorem sound_resolveType? (written : Option TypeExpr) :
    Sound k c r d (resolveType? written) fun r' found => ∀ ty ∈ found, ty.Declared r' := by
  unfold resolveType?
  split
  · refine (sound_resolveType _).bind fun ty r₁ _ h => .pure fun _ hr ty' hty => ?_
    cases hty
    exact h.mono hr
  · exact .pure fun _ _ => nofun

theorem sound_distinctGenerics (generics : List Ident) (seen : List String) :
    Sound k c r d (distinctGenerics generics seen) fun _ _ => True := by
  induction generics generalizing r seen with
  | nil => exact .pure fun _ _ => trivial
  | cons generic rest ih =>
    unfold distinctGenerics
    split
    · exact (sound_report _ _ fun _ => rfl).bind fun _ _ _ _ => ih _
    · exact ih _

theorem sound_resolveSignature (generics : List Ident) (params : List Param)
    (returns : List TypeExpr) :
    Sound k c r d (resolveSignature generics params returns) fun r' s => s.Declared r' := by
  refine (sound_distinctGenerics _ _).bind fun names r₁ _ _ => ?_
  have htypes : Sound k c r₁ (false :: d) (do
      let params ← resolveTypes (params.map (·.ty))
      let returns ← resolveTypes returns
      return (params, returns)) fun r' p => Ty.AllDeclared r' p.1 ∧ Ty.AllDeclared r' p.2 :=
    (sound_resolveTypes _).bind fun _ _ _ hp => (sound_resolveTypes _).bind fun _ _ h₂ hr =>
      .pure fun _ h => ⟨(hp.mono h₂).mono h, hr.mono h⟩
  refine Sound.bind (Sound.inPushedFunction trivial ?_ htypes) fun _ _ _ h => .pure fun _ hr =>
    ⟨h.1.1.mono hr, h.1.2.mono hr⟩
  exact fun _ _ _ hr h => ⟨h.1.mono hr, h.2.mono hr⟩

/-! ## Fields and elements -/

/-- A member of a class or entity that is declared. -/
theorem sound_memberValue (field : Ident) {owner : DeclRef} {kind : NamedKind}
    (h : r.Has owner kind) :
    Sound k c r d (memberValue field owner kind) fun r' p => p.2.Fine k.plain r' := by
  refine (sound_members? owner kind).bind fun found r₁ _ hfound => ?_
  split
  · cases hfound.1 h
  · next members =>
    have hm := hfound.2 members rfl
    split
    · next hf => exact .pure fun _ hr => (hm.field? hf).value.mono hr
    · next hf hmethod => exact .pure fun _ hr =>
        ⟨Signature.declared_withOwner ((hm.method? hmethod).mono hr) _ _, fun _ => rfl⟩
    · exact (sound_report _ _ fun _ => rfl).bind fun _ _ _ _ => .pure fun _ _ => Value.fine_invalid

theorem sound_fieldAccess (target : Expr) {value : Value} (h : value.Fine k.plain r) (field : Ident)
    (index : Option Nat) (span : Span) :
    Sound k c r d (fieldAccess target value field index span) (YieldsOne k) := by
  have hinvalid {kind : AlertKind} {at_ : Span} {e : Expr} (hkind : k.proper → kind.isProper = true) :
      Sound k c r d (do
        report kind at_
        return (e, Value.invalid)) (YieldsOne k) :=
    (sound_report _ _ hkind).bind fun _ _ _ _ => .pure fun _ _ => Value.fine_invalid
  unfold fieldAccess
  dsimp only
  split
  · have hclass : r.Has _ .classDecl := h.declared
    exact (sound_memberValue field hclass).bind fun _ _ _ h => .pure fun _ hr => h.mono hr
  · have hentity : r.Has _ .entityDecl := h.declared
    exact (sound_memberValue field hentity).bind fun _ _ _ h => .pure fun _ hr => h.mono hr
  · refine (sound_enum? _).bind fun found r₁ h₁ _ => ?_
    split
    · split
      · exact .pure fun _ hr => ⟨hr.enums _ (h₁.enums _ h.declared), fun _ => rfl⟩
      · exact .pure fun _ hr => ⟨hr.enums _ (h₁.enums _ h.declared), fun _ => rfl⟩
    · exact (sound_report _ _ fun _ => rfl).bind fun _ _ _ _ => .pure fun _ _ => Value.fine_invalid
  · exact hinvalid fun _ => rfl
  · exact hinvalid fun _ => rfl
  · exact .pure fun _ _ => Value.fine_invalid
  · next hne =>
    refine hinvalid fun hk => ?_
    simp [AlertKind.isProper, AlertKind.types, Value.isInvalid_ty (h.isPlain (k.plain_of_proper hk)) hne]

theorem sound_checkListIndex (index : Value) (span : Span) :
    Sound k c r d (checkListIndex index span) fun _ _ => True := by
  unfold checkListIndex
  split
  · next hagrees => exact sound_report _ _ fun _ =>
      (all_isInvalid_of_not_agrees (by simpa using hagrees)).2
  · split
    · split
      · exact sound_report _ _ fun _ => rfl
      · split
        · exact sound_report _ _ fun _ => rfl
        · exact .pure fun _ _ => trivial
    · exact .pure fun _ _ => trivial

theorem sound_elementValue (target : Expr) {value : Value} (h : value.Fine k.plain r)
    (index : Expr) (indexValue : Value) :
    Sound k c r d (elementValue target value index indexValue) (Value.Fine k.plain) := by
  unfold elementValue
  split
  · next elem =>
    have helem : elem.Declared r := h.declared
    exact (sound_checkListIndex _ _).bind fun _ _ h₁ _ => .pure fun _ hr =>
      Ty.fine_toValue ((helem.mono h₁).mono hr)
  · next elem =>
    have helem : elem.Declared r := h.declared
    refine .guardIf (fun hagrees => sound_report _ _ fun _ => ?_) fun _ h₁ => .pure fun _ hr =>
      Ty.fine_toValue ((helem.mono h₁).mono hr)
    exact (all_isInvalid_of_not_agrees (by simpa using hagrees)).2
  · exact .pure fun _ _ => Value.fine_invalid
  · next hne =>
    refine (sound_report _ _ fun hk => ?_).bind fun _ _ _ _ => .pure fun _ _ => Value.fine_invalid
    simp [AlertKind.isProper, AlertKind.types, Value.isInvalid_ty (h.isPlain (k.plain_of_proper hk)) hne]

/-! ## Calls -/

theorem declared_hintsOf {params : List Ty} (h : Ty.AllDeclared r params) :
    ∀ ty ∈ hintsOf params, ty.Declared r := by
  intro ty hty
  obtain ⟨param, hparam, rfl⟩ := List.mem_map.1 hty
  split
  · trivial
  · exact (Ty.allDeclared_iff _).1 h param hparam

theorem allDeclared_map_substitute {bindings : Bindings} (hb : Bindings.Declared r bindings)
    {tys : List Ty} (h : Ty.AllDeclared r tys) :
    Ty.AllDeclared r (tys.map (·.substitute bindings)) := by
  rw [Ty.allDeclared_iff] at h ⊢
  intro ty hty
  obtain ⟨ty', hty', rfl⟩ := List.mem_map.1 hty
  exact Ty.declared_substitute hb ty' (h ty' hty')

theorem loose_callValue {returns : List Ty} (h : Ty.AllDeclared r returns) :
    (callValue returns).Loose k.plain r := by
  refine Value.loose_ofList fun v hv => ?_
  obtain ⟨ty, hty, rfl⟩ := List.mem_map.1 hv
  exact Ty.fine_toValue ((Ty.allDeclared_iff _).1 h ty hty)

theorem sound_bindGenerics (signature : Signature) {explicit args : List Ty}
    (hexplicit : ∀ ty ∈ explicit, ty.Declared r) (hargs : ∀ ty ∈ args, ty.Declared r)
    (span : Span) :
    Sound k c r d (bindGenerics signature explicit args span) Bindings.Declared := by
  unfold bindGenerics
  extract_lets fill
  have hfill (bound : Bindings) (r₁ : Registry) (hb : Bindings.Declared r₁ bound) :
      Sound k c r₁ d (fill bound) Bindings.Declared := by
    have hfilled := declared_fillUnbound signature.generics hb
    refine .guard (.forM (P := fun _ => True) (fun _ _ => trivial) fun _ _ _ _ =>
      sound_report _ _ fun _ => rfl) fun r₂ h₂ => .pure fun _ hr => ?_
    exact hfilled.imp fun _ hty => (hty.mono h₂).mono hr
  cases hbound : resolveGenerics explicit signature.generics signature.params args with
  | ok bindings => exact hfill bindings r (declared_resolveGenerics hexplicit hargs hbound)
  | error e => exact (sound_report _ _ fun _ => rfl).bind fun _ r₁ _ _ => hfill .empty r₁ Table.forall_empty

/-- A call against a declared signature. -/
theorem sound_call {signature : Signature} (hs : signature.Declared r) (explicit : List TypeExpr)
    {walkArgs : List Ty → Check (List Expr × List (Value × Span))}
    (hwalk : ∀ r' hints, (∀ ty ∈ hints, ty.Declared r') →
      Sound k c r' d (walkArgs hints) fun r' p => YieldsAll k r' p.2) (span : Span) :
    Sound k c r d (call signature explicit walkArgs span) fun r' p => Ty.AllDeclared r' p.2 := by
  refine (sound_resolveTypes explicit).bind fun explicit r₁ h₁ hexplicit => ?_
  have hs₁ := hs.mono h₁
  refine (hwalk r₁ _ (declared_hintsOf hs₁.params)).bind fun p r₂ h₂ hvalues => ?_
  have hexplicit₂ := (Ty.allDeclared_iff _).1 (hexplicit.mono h₂)
  refine (sound_bindGenerics signature hexplicit₂ hvalues.typesOf span).bind
    fun bindings r₃ h₃ hb => ?_
  refine (Sound.forM (isProper_validateArguments _ _ _) fun a _ _ ha =>
    sound_alert a fun _ => ha).bind fun _ r₄ h₄ _ => .pure fun r' hr => ?_
  have hb' : Bindings.Declared r' bindings := hb.imp fun _ hty => (hty.mono h₄).mono hr
  exact allDeclared_map_substitute hb' ((((hs₁.returns.mono h₂).mono h₃).mono h₄).mono hr)

theorem sound_constructed (ty : TypeExpr) (kind : NamedKind) (keyword : String) :
    Sound k c r d (constructed ty kind keyword) fun r' p =>
      (∀ ref ∈ p.1, r'.Has ref kind) ∧ ∀ signature ∈ p.2, signature.Declared r' := by
  refine (sound_resolveType ty).bind fun resolved r₁ _ hty => ?_
  split
  · next env name =>
    refine (sound_class? _).bind fun info r₂ h₂ hinfo => .pure fun r' hr => ⟨?_, ?_⟩
    · intro ref href
      cases href
      exact (hty.mono h₂).mono hr
    · intro signature hs
      obtain ⟨found, hfound, hs⟩ := Option.bind_eq_some_iff.1 hs
      exact ((hinfo found hfound).constructor signature hs).mono hr
  · next env name =>
    refine (sound_entity? _).bind fun info r₂ h₂ hinfo => .pure fun r' hr => ⟨?_, ?_⟩
    · intro ref href
      cases href
      exact (hty.mono h₂).mono hr
    · intro signature hs
      obtain ⟨found, hfound, hs⟩ := Option.bind_eq_some_iff.1 hs
      exact ((hinfo found hfound).spawner signature hs).mono hr
  · exact .guard (sound_report _ _ fun _ => rfl) fun _ _ => .pure fun _ _ => ⟨by simp, by simp⟩

/-! ## Operators -/

theorem fine_number (literal : Option Binary64) : (Value.number literal).Fine k.plain r :=
  ⟨trivial, fun _ => rfl⟩

theorem fine_bool : Value.bool.Fine k.plain r := ⟨trivial, fun _ => rfl⟩

theorem fine_text : Value.text.Fine k.plain r := ⟨trivial, fun _ => rfl⟩

theorem fine_arithmeticValue {value : Value} (h : value.Fine k.plain r) :
    (arithmeticValue value).Fine k.plain r := by
  unfold arithmeticValue
  split
  · exact fine_number _
  · exact fine_number _
  · exact fine_number _
  · exact h

theorem fine_negatedValue {value : Value} (h : value.Fine k.plain r) :
    (negatedValue value).Fine k.plain r := by
  unfold negatedValue
  split
  · exact fine_number _
  · exact fine_number _
  · exact fine_number _
  · exact h

theorem sound_checkOperand (op : String) (expected got : Ty) (span : Span) :
    Sound k c r d (checkOperand op expected got span) fun _ _ => True := by
  unfold checkOperand
  split
  · next hagrees =>
    obtain ⟨hgot, -⟩ := Ty.isInvalid_of_not_agrees (by simpa using hagrees)
    exact sound_report _ _ fun _ => by simp [AlertKind.isProper, AlertKind.types, hgot]
  · exact .pure fun _ _ => trivial

theorem sound_binaryValue (op : BinaryOp) {left : Value} (h : left.Fine k.plain r) (right : Value)
    (span : Span) : Sound k c r d (binaryValue op left right span) (Value.Fine k.plain) := by
  unfold binaryValue
  dsimp only
  split
  · split
    · exact .pure fun _ _ => fine_bool
    · exact .pure fun _ _ => fine_bool
    · exact .pure fun _ _ => Value.fine_invalid
  · next hsentinel =>
    -- Neither type is the error sentinel, so both may be named.
    have htypes : (AlertKind.typesMismatch op.spelling left.ty right.ty).isProper = true := by
      simpa [AlertKind.isProper, AlertKind.types] using hsentinel
    split
    · split
      · exact (sound_report _ _ fun _ => htypes).bind fun _ _ _ _ =>
          .pure fun _ _ => Value.fine_invalid
      · exact .pure fun _ hr => fine_arithmeticValue (h.mono hr)
    · split
      · exact (sound_report _ _ fun _ => htypes).bind fun _ _ _ _ =>
          .pure fun _ _ => Value.fine_invalid
      · exact .pure fun _ _ => fine_text
    · exact .guard (sound_report _ _ fun _ => htypes) fun _ _ => .pure fun _ _ => fine_bool
    · exact (sound_checkOperand _ _ _ _).bind fun _ _ _ _ =>
        (sound_checkOperand _ _ _ _).bind fun _ _ _ _ => .pure fun _ _ => fine_bool
    · exact (sound_checkOperand _ _ _ _).bind fun _ _ _ _ =>
        (sound_checkOperand _ _ _ _).bind fun _ _ _ _ => .pure fun _ _ => fine_number _

theorem sound_unaryValue (op : UnaryOp) {operand : Value} (h : operand.Fine k.plain r)
    (span : Span) : Sound k c r d (unaryValue op operand span) (Value.Fine k.plain) := by
  unfold unaryValue
  dsimp only
  split
  · exact .guard (sound_checkOperand _ _ _ _) fun _ _ => .pure fun _ _ => fine_bool
  · split
    · exact .pure fun _ _ => Value.fine_invalid
    · next hsentinel =>
      split
      · refine (sound_report _ _ fun _ => ?_).bind fun _ _ _ _ => .pure fun _ _ => Value.fine_invalid
        simpa [AlertKind.isProper, AlertKind.types] using hsentinel
      · exact .pure fun _ hr => fine_negatedValue (h.mono hr)
  · refine .guardIf (fun hguard => sound_report _ _ fun _ => ?_) fun _ _ => .pure fun _ _ =>
      fine_number _
    simp only [Bool.and_eq_true] at hguard
    simpa [AlertKind.isProper, AlertKind.types] using hguard.1.1

theorem sound_dropUnderOr (before : Nat) (span : Span) :
    Sound k c r d (dropUnderOr before span) fun _ _ => True := by
  refine .get_bind (fun _ _ _ => rfl) fun a r₁ _ h => ?_
  dsimp only
  split
  · refine (sound_report _ _ fun _ => rfl).bind fun _ r₂ h₂ _ => ?_
    exact sound_setNarrowings (fun _ _ => rfl) fun s hr _ n hn =>
      hr.entities _ (h₂.entities _ (h n (List.mem_of_mem_take hn)))
  · exact .pure fun _ _ => trivial

/-! ## Entity tests -/

theorem sound_entityTest (ty : TypeExpr) (binding : Option Ident) (negated : Bool) (span : Span) :
    Sound k c r d (entityTest ty binding negated span) fun _ _ => True := by
  unfold entityTest
  extract_lets engine done test
  have htest (isEngine : Bool) (r : Registry) : Sound k c r d (test isEngine) fun _ _ => True := by
    simp only [test, engine, done]
    split
    · exact .guard (sound_report _ _ fun _ => rfl) fun _ _ => .pure fun _ _ => trivial
    · refine (sound_resolveType ty).bind fun resolved r₁ _ hty => ?_
      split
      · next env name =>
        split
        · next id =>
          refine Sound.bind (sound_setNarrowings (fun _ _ => rfl) fun s hr hs n hn => ?_) fun _ _ _ _ =>
            .pure fun _ _ => trivial
          rcases List.mem_append.1 hn with hn | hn
          · exact hs n hn
          · rw [List.mem_singleton.1 hn]
            exact hr.entities _ hty
        · exact .pure fun _ _ => trivial
      · exact .pure fun _ _ => trivial
      · next hne =>
        refine (sound_report _ _ fun _ => ?_).bind fun _ _ _ _ => .pure fun _ _ => trivial
        have hresolved := Ty.isInvalid_eq_false hne
        have hentity : Ty.rawEntity.isInvalid = false := rfl
        simp [AlertKind.isProper, AlertKind.types, hresolved, hentity]
  split
  · exact sound_environment.bind fun _ r₁ _ _ => htest _ r₁
  · exact htest false r

theorem sound_conditionNarrowings (condition : Expr) (value : Value) :
    Sound k c r d (conditionNarrowings condition value) fun r' narrowings =>
      ∀ n ∈ narrowings, r'.HasEntity n.entity :=
  (sound_checkType _ _ _ _).bind fun _ _ _ _ => sound_takeNarrowings

theorem sound_declareNarrowings {narrowings : List Narrowing}
    (h : ∀ n ∈ narrowings, r.HasEntity n.entity) (negated : Bool) :
    Sound k c r d (declareNarrowings narrowings negated) fun _ _ => True :=
  .forM (P := fun n => r.HasEntity n.entity) (fun n hn => h n (List.mem_filter.1 hn).1)
    fun n _ hr hn => by
      refine sound_declare ?_ (.inr fun _ => rfl) _
      exact ⟨⟨hr.entities _ hn, fun _ => rfl⟩, nofun⟩

/-! ## Assignment -/

theorem sound_assignLocal (target : Expr) : Sound k c r d (assignLocal target) fun _ _ => True := by
  unfold assignLocal
  split
  · refine sound_scopes.bind fun stack r₁ _ _ => ?_
    split
    · refine sound_scopes.bind fun stack r₂ _ hstack => ?_
      split
      · next stack' ha =>
        exact (sound_setScopes (hstack.assign ha)).bind fun _ _ _ _ => .pure fun _ _ => trivial
      · exact (sound_reportScopeError _ _ _).bind fun _ _ _ _ => .pure fun _ _ => trivial
    · exact .pure fun _ _ => trivial
  · exact .pure fun _ _ => trivial

theorem sound_markFieldInitialized (name : String) :
    Sound k c r d (markFieldInitialized name) fun _ _ => True := by
  refine sound_scopes.bind fun stack r₁ _ _ => ?_
  split
  · exact sound_modifyScopes fun _ _ _ h =>
      h.modifyVariable _ name (fun v hv => ⟨hv.value, hv.constant⟩) fun _ hn => hn
  · exact .pure fun _ _ => trivial

theorem sound_checkForeignConst (binding : Option Variable) (id : Ident) :
    Sound k c r d (checkForeignConst binding id) fun _ _ => True := by
  unfold checkForeignConst
  split
  · exact sound_report _ _ fun _ => rfl
  · exact .pure fun _ _ => trivial

theorem sound_finishPlace (written resolved : Expr) (isLocal : Bool) :
    Sound k c r d (finishPlace written resolved isLocal) fun _ _ => True := by
  unfold finishPlace
  split
  · exact sound_markFieldInitialized _
  · exact sound_checkForeignConst _ _
  · refine sound_registry.bind fun _ _ _ _ => ?_
    split
    · exact (sound_foreignVariable? _ _).bind fun _ _ _ _ => sound_checkForeignConst _ _
    · exact .pure fun _ _ => trivial
  · split
    · split
      · exact sound_report _ _ fun _ => rfl
      · exact .pure fun _ _ => trivial
    · exact .pure fun _ _ => trivial
  · exact .pure fun _ _ => trivial

theorem sound_checkAssigned (op : AssignOp) {targets : List Value}
    (h : ∀ v ∈ targets, v.Fine k.plain r) (values : List (Value × Span)) :
    Sound k c r d (checkAssigned op targets values) fun _ _ => True := by
  unfold checkAssigned
  split
  · exact sound_checkValueTypes _ _ _
  · refine .forM (P := fun p => p.1.Fine k.plain r) (fun p hp => h p.1 (List.of_mem_zip hp).1)
      fun p r₁ h₁ hp => ?_
    exact (sound_binaryValue _ (hp.mono h₁) _ _).bind fun _ _ _ _ => sound_checkType _ _ _ _

/-! ## Declarations -/

theorem sound_typedDefaults {ty : Ty} (h : ty.Declared r) (names : List Ident) :
    Sound k c r d (typedDefaults ty names) fun r' p => ∀ v ∈ p.2, v.Fine k.plain r' := by
  induction names generalizing r with
  | nil => exact .pure fun _ _ => by simp
  | cons name rest ih =>
    unfold typedDefaults
    extract_lets others
    have hrest (literal : List Expr) (r₁ : Registry) (h₁ : r.Extends r₁) :
        Sound k c r₁ d (others literal) fun r' p => ∀ v ∈ p.2, v.Fine k.plain r' :=
      (ih (h.mono h₁)).bind fun _ r₂ h₂ hv => .pure fun _ hr => List.forall_mem_cons.2
        ⟨Ty.fine_toValue (((h.mono h₁).mono h₂).mono hr), fun v hmem => (hv v hmem).mono hr⟩
    cases ty.defaultLiteral? name.span with
    | some literal => exact hrest [literal] r (.refl r)
    | none =>
      refine .guardIf (fun hguard => sound_report _ _ fun _ => ?_) fun r₁ h₁ => hrest [] r₁ h₁
      simpa [AlertKind.isProper, AlertKind.types] using hguard

theorem sound_defaultValues {decl : Declaration} (h : ∀ ty ∈ decl.declared, ty.Declared r) :
    Sound k c r d (defaultValues decl) fun r' p => ∀ v ∈ p.2, v.Fine k.plain r' := by
  unfold defaultValues
  refine .guard (sound_report _ _ fun _ => rfl) fun r₁ h₁ => ?_
  split
  · next ty hty => exact sound_typedDefaults ((h ty hty).mono h₁) _
  · exact .guard (.forM (P := fun _ => True) (fun _ _ => trivial) fun _ _ _ _ =>
      sound_report _ _ fun _ => rfl) fun _ _ => .pure fun _ _ => by simp

theorem sound_declaredValue (name : Ident) {declared : Option Ty}
    (h : ∀ ty ∈ declared, ty.Declared r) {given : Value} (hg : given.Fine k.plain r) :
    Sound k c r d (declaredValue name declared given) (Value.Fine k.plain) := by
  unfold declaredValue
  split
  · exact .pure fun _ hr => hg.mono hr
  · next ty =>
    refine .guardIf (fun hagrees => sound_report _ _ fun _ => ?_) fun _ h₁ => .pure fun _ hr =>
      Ty.fine_toValue (((h ty rfl).mono h₁).mono hr)
    exact (all_isInvalid_of_not_agrees (by simpa using hagrees)).2

/-- Only a constant keeps a literal. -/
theorem fine_declaredVariable (decl : Declaration) (name : Ident) {value : Value}
    (h : value.Fine k.plain r) (literal : Option Literal) :
    (declaredVariable decl name value literal).Fine k.plain r := by
  unfold declaredVariable
  cases decl.isConst with
  | true => exact ⟨h, fun _ => rfl⟩
  | false => exact ⟨Value.fine_forgetLiteral h, nofun⟩

/-- Only a constant keeps its number. -/
theorem forgets_declaredVariable (decl : Declaration) (name : Ident) (value : Value)
    (literal : Option Literal) : (declaredVariable decl name value literal).Forgets := by
  unfold declaredVariable
  cases decl.isConst with
  | true => exact nofun
  | false => exact fun _ => value.literal?_forgetLiteral

theorem sound_declareNames {decl : Declaration} (h : ∀ ty ∈ decl.declared, ty.Declared r)
    (names : List Ident) {values : List Value} (hv : ∀ v ∈ values, v.Fine k.plain r)
    (literals : List (Option Literal)) :
    Sound k c r d (declareNames decl names values literals) fun _ _ => True := by
  induction names generalizing r values literals with
  | nil => exact .pure fun _ _ => trivial
  | cons name rest ih =>
    have hhead : (values.head?.getD .invalid).Fine k.plain r := by
      cases values with
      | nil => exact Value.fine_invalid
      | cons v others => exact hv v (by simp)
    refine (sound_declaredValue name h hhead).bind fun value r₁ h₁ hvalue => ?_
    refine (sound_declare (fine_declaredVariable decl name hvalue _)
      (.inr (forgets_declaredVariable decl name value _)) _).bind fun _ r₂ h₂ _ => ?_
    have hr := h₁.trans h₂
    exact ih (fun ty hty => (h ty hty).mono hr)
      (fun v hmem => (hv v (List.mem_of_mem_tail hmem)).mono hr) _

theorem sound_registeredFunction? (name : Ident) :
    Sound k c r d (registeredFunction? name) fun r' found =>
      ∀ signature ∈ found, signature.Declared r' := by
  refine sound_scopes.bind fun stack r₁ _ hstack => ?_
  have hroot := (ScopeStack.fine_iff.1 hstack.1).1.1.bindings
  split
  · next binding hb =>
    have hvalue := (hroot.get? hb).value.declared
    split
    · next signature hsig =>
      rw [hsig] at hvalue
      split
      · refine .pure fun _ hr s hs => ?_
        cases hs
        exact Signature.Declared.mono hr hvalue
      · exact .pure fun _ _ => by simp
    · exact .pure fun _ _ => by simp
  · exact .pure fun _ _ => by simp

theorem sound_functionSignature (name : Ident) (generics : List Ident) (params : List Param)
    (returns : List TypeExpr) (isPub : Bool) (span : Span) :
    Sound k c r d (functionSignature name generics params returns isPub span) fun r' s =>
      s.Declared r' := by
  refine sound_scopes.bind fun stack r₁ _ _ => ?_
  split
  · refine (sound_registeredFunction? name).bind fun found r₂ _ h => ?_
    split
    · next signature => exact .pure fun _ hr => (h signature rfl).mono hr
    · exact sound_resolveSignature _ _ _
  · refine .guard (sound_report _ _ fun _ => rfl) fun r₂ _ => (sound_resolveSignature _ _ _).bind
      fun signature r₃ _ hs => Sound.bind (sound_declare ?_ (.inr fun _ => rfl) _)
        fun _ r₄ h₄ _ => ?_
    · exact ⟨⟨hs, fun _ => rfl⟩, fun _ => rfl⟩
    · exact .pure fun _ hr => (hs.mono h₄).mono hr

/-- Only the root has no other scope open. -/
theorem sound_atRoot (what : String) (span : Span) :
    Sound k c r d (atRoot what span) fun _ isRoot => isRoot = true → d = [] := by
  refine sound_scopes.bind fun stack r₁ _ hstack => ?_
  split
  · next hroot =>
    refine .pure fun _ _ _ => ?_
    rw [← hstack.2, ScopeStack.containers, List.map_eq_nil_iff]
    exact List.isEmpty_iff.1 hroot
  · refine (sound_report _ _ fun _ => rfl).bind fun _ _ _ _ => .pure fun _ _ hroot => ?_
    exact absurd hroot Bool.false_ne_true

/-! ## Bodies of classes and entities -/

theorem sound_bindMembers {members : Members} (h : members.Fine k.plain r) :
    Sound k c r (true :: d) (bindMembers members) fun _ _ => True := by
  refine (Sound.forM (P := Variable.Fine k.plain r) h.fields fun field _ hr hf =>
    sound_declare (hf.mono hr) (.inl rfl) _).bind fun _ r₁ h₁ _ => ?_
  refine .forM (P := fun e => e.2.signature.Declared r) (fun e he => h.methods e he)
    fun e _ hr he => ?_
  refine sound_declare ?_ (.inl rfl) _
  exact ⟨⟨(he.mono h₁).mono hr, fun _ => rfl⟩, nofun⟩

theorem sound_refineField (owner : DeclRef) (kind : NamedKind) (name : String) {value : Value}
    (h : value.Fine k.plain r) :
    Sound k c r (true :: d) (refineField owner kind name value) fun _ _ => True := by
  refine Sound.bind (R := fun _ _ => True) (sound_modifyScopes fun r' stack hr hs =>
    hs.modifyMember name fun v hv => ⟨h.mono hr, hv.constant⟩) fun _ r₁ h₁ _ => ?_
  refine sound_modifyEnvironment' fun r' env hr ⟨_, _, hv, hd⟩ => ?_
  refine ⟨?_, ?_, env.grows_modifyMembers _ _ _, hv.setField _ _ _ ((h.mono h₁).mono hr)⟩
  · cases kind <;> rfl
  · cases kind <;> exact hd

theorem sound_checkInitializers (owner : DeclRef) (kind : NamedKind) (names : List Ident)
    (registered : List (Option Value)) {values : List (Value × Span)} (h : YieldsAll k r values) :
    Sound k c r (true :: d) (checkInitializers owner kind names registered values)
      fun _ _ => True := by
  refine .forM (P := fun p => p.2.1.Fine k.plain r) (fun p hp => h p.2 (List.of_mem_zip hp).2)
    fun p r₁ h₁ hp => ?_
  obtain ⟨⟨name, registered⟩, value, span⟩ := p
  dsimp only
  unfold checkInitializer
  split
  · exact sound_refineField _ _ _ (hp.mono h₁)
  · exact sound_checkType _ _ _ _
  · exact .pure fun _ _ => trivial

theorem declared_initializerHints {members : Members} (h : members.Fine k.plain r) (names : List Ident) :
    ∀ ty ∈ initializerHints (registeredValues members names), ty.Declared r := by
  intro ty hty
  obtain ⟨value, hvalue, rfl⟩ := List.mem_map.1 hty
  obtain ⟨name, -, rfl⟩ := List.mem_map.1 hvalue
  cases hfield : members.field? name.name with
  | none => trivial
  | some p => exact (h.field? hfield).value.ty

theorem sound_checkFieldsInitialized (span : Span) :
    Sound k c r d (checkFieldsInitialized span) fun _ _ => True :=
  sound_scopes.bind fun _ _ _ _ =>
    .forM (P := fun _ => True) (fun _ _ => trivial) fun _ _ _ _ => sound_alert _ fun _ => rfl

theorem sound_methodSignature {members : Members} (h : members.Fine k.plain r) (name : Ident)
    (generics : List Ident) (params : List Param) (returns : List TypeExpr) :
    Sound k c r d (methodSignature members name generics params returns) fun r' s =>
      s.Declared r' := by
  unfold methodSignature
  split
  · next method hm =>
    split
    · exact .pure fun _ hr => (h.method? hm).mono hr
    · exact sound_resolveSignature _ _ _
  · exact sound_resolveSignature _ _ _

theorem sound_walkedSignature {entity : EntityInfo} (h : entity.Fine k.plain r)
    (seen : List LifecycleKind) (kind : LifecycleKind) (generics : List Ident)
    (params : List Param) (returns : List TypeExpr) :
    Sound k c r d (walkedSignature entity seen kind generics params returns) fun r' p =>
      p.1.Declared r' := by
  unfold walkedSignature
  split
  · next signature hs =>
    split
    · exact (sound_resolveSignature _ _ _).bind fun _ _ _ hs => .pure fun _ hr => hs.mono hr
    · exact .pure fun _ hr => (h.lifecycle? hs).mono hr
  · exact (sound_resolveSignature _ _ _).bind fun _ _ _ hs => .pure fun _ hr => hs.mono hr

theorem sound_bindParams (params : List Param) {types : List Ty} (h : Ty.AllDeclared r types) :
    Sound k c r d (bindParams params types) fun _ _ => True := by
  refine .forM (P := fun p => p.2.Declared r)
    (fun p hp => (Ty.allDeclared_iff _).1 h p.2 (List.of_mem_zip hp).2) fun p _ hr hp => ?_
  refine sound_declare ?_ (.inr fun _ => p.2.literal?_toValue) _
  exact ⟨Ty.fine_toValue (hp.mono hr), nofun⟩

/-- A function body in its own scope. -/
theorem sound_inFunction {signature : Signature} (h : signature.Declared r) (params : List Param)
    (span : Span) {body : Check (List Stmt)}
    (hbody : ∀ r', Sound k c r' (false :: d) body fun _ _ => True) :
    Sound k c r d (inFunction signature params span body) fun _ _ => True := by
  have hinside : Sound k c r (false :: d) (do
      bindParams params signature.params
      let body ← body
      let exits := (← scopes).current.exits
      if !signature.returns.isEmpty && !exits.byReturn then
        report (.notAllCodePathsExit "return") span
      return body) fun _ _ => True :=
    (sound_bindParams params h.params).bind fun _ _ _ _ => (hbody _).bind fun _ _ _ _ =>
      sound_scopes.bind fun _ _ _ _ => .guard (sound_report _ _ fun _ => rfl) fun _ _ => .pure fun _ _ => trivial
  exact Sound.bind (Sound.inPushedFunction h.returns (fun _ _ _ _ _ => trivial) hinside)
    fun _ _ _ _ => .pure fun _ _ => trivial

/-! ## Exit statements -/

theorem sound_exitAllowed (asked : Permissions) (statement : String) (span : Span) :
    Sound k c r d (exitAllowed asked statement span) fun _ _ => True := by
  refine sound_scopes.bind fun stack r₁ _ _ => ?_
  split
  · exact .pure fun _ _ => trivial
  · exact (sound_report _ _ fun _ => rfl).bind fun _ _ _ _ => .pure fun _ _ => trivial

theorem sound_markExit (kind : Exits) : Sound k c r d (markExit kind) fun _ _ => True :=
  sound_modifyScopes fun _ _ _ h =>
    h.modifyCurrent (fun _ hs => ⟨hs.tag, hs.bindings, hs.numbers⟩) fun _ => rfl

theorem sound_reportExits (exits : Exits) :
    Sound k c r d (modifyScopes (·.reportExits exits)) fun _ _ => True :=
  sound_modifyScopes fun _ _ _ h =>
    h.modifyCurrent (fun _ hs => ScopeStack.fine_receive hs exits)
      fun _ => ScopeStack.isContainer_receive _ exits

theorem sound_returnTypes : Sound k c r d returnTypes Ty.AllDeclared := by
  refine sound_scopes.bind fun stack r₁ _ hstack => .pure fun r' hr => ?_
  cases hf : stack.func? with
  | none => trivial
  | some tag => exact (hstack.1.func? hf).mono hr

theorem sound_checkReturn (expected : List Ty) (values : List (Value × Span)) (span : Span) :
    Sound k c r d (checkReturn expected values span) fun _ _ => True :=
  (sound_checkValueCount _ _ _ _).bind fun _ _ _ _ =>
    .guard (sound_checkValueTypes _ _ _) fun _ _ => sound_markExit _

theorem sound_yieldTarget :
    Sound k c r d yieldTarget fun r' p => ∀ types ∈ p.2, Ty.AllDeclared r' types := by
  refine sound_scopes.bind fun stack r₁ _ hstack => .pure fun r' hr types htypes => ?_
  dsimp only at htypes
  obtain ⟨tag, htag, hyields⟩ := Option.bind_eq_some_iff.1 htypes
  obtain ⟨scope, hscope, hmatch⟩ := Option.bind_eq_some_iff.1 htag
  obtain ⟨position, -, hget⟩ := Option.bind_eq_some_iff.1 hscope
  have hvalid := (hstack.1.get? hget).tag
  cases hscopeTag : scope.tag with
  | matchExpr tag' =>
    rw [hscopeTag] at hmatch hvalid
    cases hmatch
    exact Ty.AllDeclared.mono hr (hvalid types hyields)
  | _ =>
    rw [hscopeTag] at hmatch
    cases hmatch

theorem isContainer_setYields (types : List Ty) (scope : Scope) :
    (setYields types scope).isContainer = scope.isContainer := by
  unfold setYields
  split
  · next tag heq => simp [Scope.isContainer, heq, ScopeTag.container?]
  · rfl

theorem fine_setYields {types : List Ty} (ht : Ty.AllDeclared r types) {scope : Scope}
    (h : scope.Fine k.plain r) : (setYields types scope).Fine k.plain r := by
  unfold setYields
  split
  · next tag heq =>
    refine ⟨fun types' htypes => ?_, h.bindings, fun hp _ => h.numbers hp ?_⟩
    · cases htypes
      exact ht
    · simp [Scope.isContainer, heq, ScopeTag.container?]
  · exact h

theorem sound_checkYield (position : Option Nat) (known : Option (List Ty))
    {values : List (Value × Span)} (h : YieldsAll k r values) (span : Span) :
    Sound k c r d (checkYield position known values span) fun _ _ => True := by
  unfold checkYield
  split
  · exact (sound_checkValueCount _ _ _ _).bind fun _ _ _ _ =>
      .guard (sound_checkValueTypes _ _ _) fun _ _ => sound_markExit _
  · split
    · next position =>
      refine Sound.bind (R := fun _ _ => True) (sound_modifyScopes fun r' stack hr hs => ?_)
        fun _ _ _ _ => sound_markExit _
      have htypes := (Ty.allDeclared_iff _).2 (h.mono hr).typesOf
      exact ⟨hs.1.modifyAt position (fun _ _ hscope => fine_setYields htypes hscope)
          (isContainer_setYields _),
        (stack.containers_modifyAt position (isContainer_setYields _)).trans hs.2⟩
    · exact sound_markExit _

end HybroidSema.Check
