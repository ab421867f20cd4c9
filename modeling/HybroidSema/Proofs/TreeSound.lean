import HybroidSema.Proofs.SoundParts
import HybroidSema.Proofs.TreeInduction

/-!
# A walk over a tree cannot end the build

By induction on the tree: a check of a tree from source text keeps states good, and the values of
its expressions are declared. A class or entity at the root must be registered under its name;
further in, its declaration is only reported.

* The steps around the recursion.
* `sound_expr_of`, `sound_stmt_of`: a node, where what is right inside it is sound. `sound_tree` is
  the induction.
-/

namespace HybroidSema.Check

variable {α : Type} {m : Check α} {k : Demands} {c : Context} {r : Registry} {d : List Bool}

/-! ## Steps around the recursion -/

theorem sound_alwaysLeaves : Sound k c r d alwaysLeaves fun _ _ => True :=
  sound_scopes.bind fun _ _ _ _ => .pure fun _ _ => trivial

theorem sound_elementType {reference : Option Ty} (h : ∀ ty ∈ reference, ty.Declared r) {got : Ty}
    (hgot : got.Declared r) (span : Span) :
    Sound k c r d (elementType reference got span) Ty.Declared := by
  unfold elementType
  split
  · exact .pure fun _ hr => hgot.mono hr
  · next expected =>
    exact .guardIf (fun hagrees => sound_report _ _ fun _ =>
      (all_isInvalid_of_not_agrees (by simpa using hagrees)).1) fun _ h₁ =>
        .pure fun _ hr => ((h expected rfl).mono h₁).mono hr

theorem sound_checkKnown (isEmpty : Bool) (hint : Option Ty) (span : Span) :
    Sound k c r d (checkKnown isEmpty hint span) fun _ _ => True := by
  unfold checkKnown
  split
  · exact sound_report _ _ fun _ => rfl
  · exact .pure fun _ _ => trivial

theorem sound_inBranch (hm : Sound k c r (false :: d) m fun _ _ => True) :
    Sound k c r d (inBranch m) fun _ _ => True :=
  Sound.bind (Sound.inPushed .empty trivial (fun _ _ _ _ _ => trivial) hm) fun _ _ _ _ =>
    .pure fun _ _ => trivial

theorem sound_inLoop (permits : Permissions) {bindings : List (Ident × Value)}
    (hb : ∀ p ∈ bindings, p.2.Fine k.plain r ∧ p.2.literal? = none) (hm : ∀ r', r.Extends r' →
      Sound k c r' (false :: d) m fun _ _ => True) :
    Sound k c r d (inLoop permits bindings m) fun _ _ => True := by
  refine Sound.bind (Sound.inPushed permits trivial (fun _ _ _ _ _ => trivial) ?_)
    fun _ _ _ _ => .pure fun _ _ => trivial
  refine Sound.bind (R := fun _ _ => True) (.forM hb fun p r' hr hp => ?_) fun _ r' hr _ => hm r' hr
  refine sound_declare ?_ (.inr fun _ => hp.2) _
  exact ⟨hp.1.mono hr, fun h => by cases h⟩

theorem sound_matchValue (arms : ArmCount) {closed : Option Scope}
    (h : ∀ scope ∈ closed, scope.Fine k.plain r) (span : Span) :
    Sound k c r d (matchValue arms closed span) fun r' p => p.2.Loose k.plain r' := by
  have htag : ∀ types ∈ ((closed.bind (·.tag.matchExpr?)).getD {}).yields,
      Ty.AllDeclared r types := by
    intro types htypes
    cases hmatch : closed.bind (·.tag.matchExpr?) with
    | none =>
      rw [hmatch] at htypes
      cases htypes
    | some tag =>
      rw [hmatch] at htypes
      obtain ⟨scope, hscope, htag⟩ := Option.bind_eq_some_iff.1 hmatch
      have hvalid := (h scope hscope).tag
      cases hscopeTag : scope.tag with
      | matchExpr tag' =>
        rw [hscopeTag] at htag hvalid
        cases htag
        exact hvalid types htypes
      | _ =>
        rw [hscopeTag] at htag
        cases htag
  unfold matchValue
  dsimp only
  refine .guard (sound_report _ _ fun _ => rfl) fun r₁ h₁ => .guard (sound_report _ _ fun _ => rfl) fun r₂ h₂ =>
    .guard (sound_report _ _ fun _ => rfl) fun r₃ h₃ => ?_
  split
  · exact .pure fun _ _ => Value.fine_invalid.loose
  · next types htypes =>
    exact .pure fun _ hr => loose_callValue
      ((((htag types htypes).mono h₁).mono h₂).mono h₃ |>.mono hr)

theorem sound_repeatType (iterator : Expr) {value : Value} (h : value.Fine k.plain r) :
    Sound k c r d (repeatType iterator value) Ty.Declared := by
  unfold repeatType
  dsimp only
  split
  · exact .pure fun _ hr => h.ty.mono hr
  · next hsentinel =>
    refine (sound_report _ _ fun _ => ?_).bind fun _ _ _ _ => .pure fun _ _ => trivial
    simp only [Bool.or_eq_true, not_or] at hsentinel
    have hnumber : Ty.number.isInvalid = false := rfl
    simp [AlertKind.isProper, AlertKind.types, hnumber, hsentinel.2]

/-- An alert that expects a type and finds that of a plain value. -/
theorem isProper_typeMismatch {value : Value} {expected : Ty} (hp : value.isPlain = true)
    (hne : value ≠ .invalid) (hexpected : expected.isInvalid = false) (context : String) :
    (AlertKind.typeMismatch expected value.ty context).isProper = true := by
  simp [AlertKind.isProper, AlertKind.types, hexpected, Value.isInvalid_ty hp hne]

/-- An alert about a plain value that is called and is not the error sentinel. -/
theorem isProper_invalidCallerType {value : Value} (hp : value.isPlain = true)
    (hv : value.isInvalid = false) : (AlertKind.invalidCallerType value.ty).isProper = true := by
  have hne : value ≠ .invalid := by
    rintro rfl
    cases hv
  simp [AlertKind.isProper, AlertKind.types, Value.isInvalid_ty hp hne]

theorem sound_iterated (iterator : Expr) {value : Value} (h : value.Fine k.plain r) :
    Sound k c r d (iterated iterator value) fun r' p =>
      (p.1.Fine k.plain r' ∧ p.1.literal? = none) ∧ p.2.Fine k.plain r' ∧ p.2.literal? = none := by
  have hinvalid (r' : Registry) : Value.invalid.Fine k.plain r' ∧ Value.invalid.literal? = none :=
    ⟨Value.fine_invalid, rfl⟩
  unfold iterated
  split
  · next elem =>
    have helem : elem.Declared r := h.declared
    exact .pure fun _ hr =>
      ⟨⟨fine_number _, rfl⟩, Ty.fine_toValue (helem.mono hr), elem.literal?_toValue⟩
  · next elem =>
    have helem : elem.Declared r := h.declared
    exact .pure fun _ hr => ⟨⟨fine_text, rfl⟩, Ty.fine_toValue (helem.mono hr), elem.literal?_toValue⟩
  · exact .pure fun r' _ => ⟨hinvalid r', hinvalid r'⟩
  · next hne =>
    exact (sound_report _ _ fun hk => isProper_typeMismatch (h.isPlain (k.plain_of_proper hk)) hne rfl _).bind
      fun _ _ _ _ => .pure fun r' _ => ⟨hinvalid r', hinvalid r'⟩

theorem sound_forKey (key : Option Ident) (span : Span) :
    Sound k c r d (forKey key span) fun _ _ => True := by
  unfold forKey
  split
  · exact .pure fun _ _ => trivial
  · refine .of_local ⟨fun _ _ => rfl, fun _ _ => rfl, fun s a s' hrun => ?_⟩
      fun s a s' hs _ hrun => ?_
    · cases hrun
      exact ⟨List.prefix_rfl, rfl⟩
    cases hrun
    exact ⟨hs.of_envs_eq rfl rfl rfl hs.fatal hs.narrowings hs.proper, .of_envs_eq rfl, trivial⟩

theorem sound_destroyer? (target : Expr) {value : Value} (h : value.Fine k.plain r) :
    Sound k c r d (destroyer? target value) fun r' found =>
      ∀ signature ∈ found, signature.Declared r' := by
  unfold destroyer?
  split
  · refine (sound_entity? _).bind fun info r₁ _ hinfo => .pure fun _ hr signature hs => ?_
    obtain ⟨found, hfound, hs⟩ := Option.bind_eq_some_iff.1 hs
    exact ((hinfo found hfound).destroyer signature hs).mono hr
  · exact .pure fun _ _ => by simp
  · next hne =>
    exact (sound_alert _ fun hk => isProper_typeMismatch (h.isPlain (k.plain_of_proper hk)) hne rfl _).bind
      fun _ _ _ _ => .pure fun _ _ => by simp

/-- A class of the own environment. If nothing may end the build it must be registered. -/
theorem sound_ownClass? {name : Ident} (h : k.fits → r.HasClass ⟨c.env, name.name⟩) :
    Sound k c r d (ownClass? name) fun r' found => ∀ info ∈ found, info.Fine k.plain r' := by
  refine sound_environment.bind fun env r₁ h₁ ⟨_, henv, hv, _⟩ => ?_
  cases hget : env.classes.get? name.name with
  | none =>
    have hfits : ¬k.fits := by
      intro hk
      have hclass := h₁.classes _ (h hk)
      simp [Registry.HasClass, Registry.class?, henv, hget] at hclass
    exact (sound_fail _ hfits).bind fun _ _ _ _ => .pure fun _ _ => by simp
  | some info =>
    refine .pure fun _ hr found hfound => ?_
    split at hfound
    · cases hfound
      exact (hv.classes.get? hget).mono hr
    · cases hfound

/-- An entity of the own environment. If nothing may end the build it must be registered. -/
theorem sound_ownEntity? {name : Ident} (h : k.fits → r.HasEntity ⟨c.env, name.name⟩) :
    Sound k c r d (ownEntity? name) fun r' found => ∀ info ∈ found, info.Fine k.plain r' := by
  refine sound_environment.bind fun env r₁ h₁ ⟨_, henv, hv, _⟩ => ?_
  cases hget : env.entities.get? name.name with
  | none =>
    have hfits : ¬k.fits := by
      intro hk
      have hentity := h₁.entities _ (h hk)
      simp [Registry.HasEntity, Registry.entity?, henv, hget] at hentity
    exact (sound_fail _ hfits).bind fun _ _ _ _ => .pure fun _ _ => by simp
  | some info =>
    refine .pure fun _ hr found hfound => ?_
    split at hfound
    · cases hfound
      exact (hv.entities.get? hget).mono hr
    · cases hfound

/-- An object of a class, if there is one. -/
theorem loose_classObject? {ref : Option DeclRef} (h : ∀ found ∈ ref, r.HasClass found) :
    ((ref.map Value.classObject).getD .invalid).Loose k.plain r := by
  cases ref with
  | none => exact Value.fine_invalid.loose
  | some found =>
    have hobject : (Value.classObject found).Fine k.plain r := ⟨h found rfl, fun _ => rfl⟩
    exact hobject.loose

/-- An object of an entity, if there is one. -/
theorem loose_entityObject? {ref : Option DeclRef} (h : ∀ found ∈ ref, r.HasEntity found) :
    ((ref.map Value.entityObject).getD .invalid).Loose k.plain r := by
  cases ref with
  | none => exact Value.fine_invalid.loose
  | some found =>
    have hobject : (Value.entityObject found).Fine k.plain r := ⟨h found rfl, fun _ => rfl⟩
    exact hobject.loose

/-- The method that a resolved call names. Source text has no such calls. -/
theorem sound_calledMethod (owner : DeclRef) (kind : NamedKind) (method : Ident) (h : ¬k.fits) :
    Sound k c r d (calledMethod owner kind method) fun r' called =>
      ∀ signature, called = .found signature → signature.Declared r' := by
  refine (sound_members? owner kind).bind fun found r₁ _ hfound => ?_
  split
  · exact (sound_fail _ h).bind fun _ _ _ _ => .pure fun _ _ => nofun
  · next members =>
    have hm := hfound.2 members rfl
    split
    · next method hmethod =>
      refine .pure fun _ hr signature hs => ?_
      cases hs
      exact (hm.method? hmethod).mono hr
    · exact (sound_report _ _ fun _ => rfl).bind fun _ _ _ _ => .pure fun _ _ => nofun

/-- A check that is made under a condition after the scopes were read, before the rest. -/
theorem sound_guard_scopes {β : Type} {m : Check PUnit} {rest : Check β} {b : Prop} [Decidable b]
    {b' : ScopeStack → Prop} [∀ stack, Decidable (b' stack)] {R : Registry → PUnit → Prop}
    {Q : Registry → β → Prop} (hm : ∀ {r'}, Sound k c r' d m R)
    (hrest : ∀ r', r.Extends r' → Sound k c r' d rest Q) :
    Sound k c r d (if b then scopes >>= fun stack => if b' stack then m >>= fun _ => rest else rest
      else rest) Q := by
  split
  · exact sound_scopes.bind fun _ r₁ h₁ _ => .guard hm fun r₂ h₂ => hrest r₂ (h₁.trans h₂)
  · exact hrest r (.refl r)

/-- A declaration is looked up, or there is none. -/
theorem sound_lookup {γ β : Type} {m : Check (Option γ)} {f : Option γ → Check β} {b : Prop}
    [Decidable b] {R : Registry → γ → Prop} {Q : Registry → β → Prop}
    (hm : b → Sound k c r d m fun r' found => ∀ info ∈ found, R r' info)
    (hf : ∀ found r', r.Extends r' → (∀ info ∈ found, R r' info) → Sound k c r' d (f found) Q) :
    Sound k c r d (if b then m >>= f else pure none >>= f) Q := by
  split
  · next hb => exact (hm hb).bind hf
  · exact hf none r (.refl r) nofun

/-! ## Registered declarations and hints -/

/-- A class or entity that the statement declares is registered. -/
def Registered (c : Context) (r : Registry) : Stmt → Prop
  | .classDecl decl => r.HasClass ⟨c.env, decl.name.name⟩
  | .entityDecl decl => r.HasEntity ⟨c.env, decl.name.name⟩
  | _ => True

theorem Registered.mono {r' : Registry} (h : r.Extends r') {s : Stmt} (hs : Registered c r s) :
    Registered c r' s := by
  cases s with
  | classDecl decl => exact h.classes _ hs
  | entityDecl decl => exact h.entities _ hs
  | _ => trivial

theorem declared_head? {hints : List Ty} (h : ∀ ty ∈ hints, ty.Declared r) :
    ∀ ty ∈ hints.head?, ty.Declared r :=
  fun ty hty => h ty (List.mem_of_head? hty)

theorem declared_tail {hints : List Ty} (h : ∀ ty ∈ hints, ty.Declared r) :
    ∀ ty ∈ hints.tail, ty.Declared r :=
  fun ty hty => h ty (List.mem_of_mem_tail hty)

theorem declared_some {ty : Ty} (h : ty.Declared r) : ∀ ty' ∈ some ty, ty'.Declared r := by
  rintro _ ⟨⟩
  exact h

theorem declared_none : ∀ ty ∈ (none : Option Ty), ty.Declared r := by simp

/-- The element type that the context expects. -/
theorem declared_hinted {hint : Option Ty} (h : ∀ ty ∈ hint, ty.Declared r)
    (kind : ContainerKind) : ∀ ty ∈ hint.bind (Ty.elemOf? kind), ty.Declared r := by
  intro ty hty
  obtain ⟨whole, hwhole, helem⟩ := Option.bind_eq_some_iff.1 hty
  exact Ty.declared_elemOf? (h whole hwhole) helem

theorem declared_getD {reference : Option Ty} (h : ∀ ty ∈ reference, ty.Declared r) :
    (reference.getD .invalid).Declared r := by
  cases reference with
  | none => trivial
  | some ty => exact h ty rfl

/-- The check of an expression is sound, with any hint of a declared type. -/
def SoundExpr (c : Context) (e : Expr) : Prop :=
  ∀ {k : Demands}, (k.fits → e.isSource = true) → ∀ (r : Registry) (d : List Bool)
    {hint : Option Ty}, (∀ ty ∈ hint, ty.Declared r) → Sound k c r d (expr e hint) (Yields k)

/-- The check of a statement is sound. -/
def SoundStmt (c : Context) (st : Stmt) : Prop :=
  ∀ {k : Demands}, (k.fits → st.isSource = true) → ∀ (r : Registry) (d : List Bool),
    (k.fits → d = [] → Registered c r st) → Sound k c r d (stmt st) fun _ _ => True

/-! ## Lists of nodes -/

section Nodes

variable {es : List Expr} {stmts : List Stmt}

theorem sound_values_of (hes : ∀ e ∈ es, SoundExpr c e) (he : k.fits → Expr.allSource es = true)
    (r : Registry) (d : List Bool) {hints : List Ty} (hh : ∀ ty ∈ hints, ty.Declared r) :
    Sound k c r d (values es hints) fun r' p => YieldsAll k r' p.2 := by
  induction es generalizing r hints with
  | nil => exact .pure fun _ _ => by simp [YieldsAll]
  | cons e rest ih =>
    rw [List.forall_mem_cons] at hes
    simp only [Expr.allSource, Bool.and_eq_true] at he
    have hfirst := hes.1 (fun hk => (he hk).1) r d (declared_head? hh)
    have hrest (r : Registry) (hints : List Ty) (h : ∀ ty ∈ hints, ty.Declared r) :=
      ih hes.2 (fun hk => (he hk).2) r h
    -- The values of the first expression stand before those of the others.
    have hothers (e' : Expr) (spread : List Value) (r₁ : Registry) (h₁ : r.Extends r₁)
        (hs : ∀ v ∈ spread, v.Fine k.plain r₁) : Sound k c r₁ d (values rest hints.tail >>= fun p =>
          pure (e' :: p.1, spread.map (·, e'.span) ++ p.2)) fun r' p => YieldsAll k r' p.2 := by
      refine (hrest r₁ _ (declared_tail fun ty hty => (hh ty hty).mono h₁)).bind
        fun p r₂ h₂ hp => .pure fun r' hr q hq => ?_
      rcases List.mem_append.1 hq with hq | hq
      · obtain ⟨v, hv, rfl⟩ := List.mem_map.1 hq
        exact ((hs v hv).mono h₂).mono hr
      · exact (hp q hq).mono hr
    refine hfirst.bind fun p r₁ h₁ hp => ?_
    dsimp only
    split
    · exact hothers p.1 _ r₁ h₁ fun v hv => hp.of_mem_toList hv
    · exact (sound_expectSingle hp _).bind fun v r₂ h₂ hv =>
        hothers p.1 [v] r₂ (h₁.trans h₂) fun w hw => List.mem_singleton.1 hw ▸ hv

theorem sound_elements_of (hes : ∀ e ∈ es, SoundExpr c e) (he : k.fits → Expr.allSource es = true)
    (r : Registry) (d : List Bool) {reference : Option Ty} (hh : ∀ ty ∈ reference, ty.Declared r) :
    Sound k c r d (elements es reference) fun r' p => ∀ ty ∈ p.2, ty.Declared r' := by
  induction es generalizing r reference with
  | nil => exact .pure fun _ hr ty hty => (hh ty hty).mono hr
  | cons e rest ih =>
    rw [List.forall_mem_cons] at hes
    simp only [Expr.allSource, Bool.and_eq_true] at he
    have hfirst := (hes.1 (fun hk => (he hk).1) r d hh).single
    have hrest (r : Registry) (ty : Ty) (h : ty.Declared r) :=
      ih hes.2 (fun hk => (he hk).2) r (declared_some h)
    exact hfirst.bind fun _ _ h₁ hp => (sound_elementType (fun ty hty => (hh ty hty).mono h₁)
      hp.ty _).bind fun ty r₂ _ hty => (hrest r₂ ty hty).bind fun _ _ _ h =>
        .pure fun _ hr ty hty => (h ty hty).mono hr

theorem sound_mapEntries_of {entries : List MapEntry}
    (hes : ∀ e ∈ entries.map (·.value), SoundExpr c e)
    (he : k.fits → MapEntry.allSource entries = true) (r : Registry) (d : List Bool)
    (keys : List String) {reference : Option Ty} (hh : ∀ ty ∈ reference, ty.Declared r) :
    Sound k c r d (mapEntries entries keys reference) fun r' p => ∀ ty ∈ p.2, ty.Declared r' := by
  induction entries generalizing r keys reference with
  | nil => exact .pure fun _ hr ty hty => (hh ty hty).mono hr
  | cons entry rest ih =>
    obtain ⟨key, e⟩ := entry
    rw [List.map_cons, List.forall_mem_cons] at hes
    simp only [MapEntry.allSource, Bool.and_eq_true] at he
    have hfirst (r : Registry) (hh : ∀ ty ∈ reference, ty.Declared r) :=
      (hes.1 (fun hk => (he hk).1) r d hh).single
    have hrest (r : Registry) (ty : Ty) (h : ty.Declared r) :=
      ih hes.2 (fun hk => (he hk).2) r (key.name :: keys) (declared_some h)
    unfold mapEntries
    refine .guard (sound_report _ _ fun _ => rfl) fun r₁ h₁ => ?_
    have hh₁ : ∀ ty ∈ reference, ty.Declared r₁ := fun ty hty => (hh ty hty).mono h₁
    exact (hfirst r₁ hh₁).bind fun _ _ h₂ hp => (sound_elementType (fun ty hty =>
      (hh₁ ty hty).mono h₂) hp.ty _).bind fun ty r₃ _ hty => (hrest r₃ ty hty).bind
        fun _ _ _ h => .pure fun _ hr ty hty => (h ty hty).mono hr

theorem sound_unchecked_of (hes : ∀ e ∈ es, SoundExpr c e) (he : k.fits → Expr.allSource es = true)
    (r : Registry) (d : List Bool) : Sound k c r d (unchecked es) fun _ _ => True := by
  induction es generalizing r with
  | nil => exact .pure fun _ _ => trivial
  | cons e rest ih =>
    rw [List.forall_mem_cons] at hes
    simp only [Expr.allSource, Bool.and_eq_true] at he
    have hfirst := hes.1 (fun hk => (he hk).1) r d declared_none
    have hrest (r : Registry) := ih hes.2 (fun hk => (he hk).2) r
    exact hfirst.bind fun _ r₁ _ _ => (hrest r₁).bind fun _ _ _ _ => .pure fun _ _ => trivial

theorem sound_patterns_of (hes : ∀ e ∈ es, SoundExpr c e) (he : k.fits → Expr.allSource es = true)
    (r : Registry) (d : List Bool) {subject : Ty} (hs : subject.Declared r) :
    Sound k c r d (patterns es subject) fun _ _ => True := by
  induction es generalizing r with
  | nil => exact .pure fun _ _ => trivial
  | cons e rest ih =>
    rw [List.forall_mem_cons] at hes
    simp only [Expr.allSource, Bool.and_eq_true] at he
    have hfirst := (hes.1 (fun hk => (he hk).1) r d (declared_some hs)).single
    have hrest (r : Registry) (hs : subject.Declared r) := ih hes.2 (fun hk => (he hk).2) r hs
    exact hfirst.bind fun _ _ h₁ _ => .guardIf (fun hagrees => sound_report _ _ fun _ =>
      (all_isInvalid_of_not_agrees (by simpa using hagrees)).2) fun r₂ h₂ =>
        (hrest r₂ ((hs.mono h₁).mono h₂)).bind fun _ _ _ _ => .pure fun _ _ => trivial

theorem sound_places_of (hes : ∀ e ∈ es, SoundExpr c e) (he : k.fits → Expr.allSource es = true)
    (r : Registry) (d : List Bool) :
    Sound k c r d (places es) fun r' p => ∀ v ∈ p.2, v.Fine k.plain r' := by
  induction es generalizing r with
  | nil => exact .pure fun _ _ => by simp
  | cons e rest ih =>
    rw [List.forall_mem_cons] at hes
    simp only [Expr.allSource, Bool.and_eq_true] at he
    have hfirst (r : Registry) := (hes.1 (fun hk => (he hk).1) r d declared_none).single
    have hrest (r : Registry) := ih hes.2 (fun hk => (he hk).2) r
    exact (sound_assignLocal _).bind fun _ r₁ _ _ => (hfirst r₁).bind fun _ _ _ hp =>
      (sound_finishPlace _ _ _).bind fun _ r₃ h₃ _ => (hrest r₃).bind fun _ _ h₄ hv =>
        .pure fun _ hr => List.forall_mem_cons.2
          ⟨Value.Fine.mono ((h₃.trans h₄).trans hr) hp, fun v hmem => (hv v hmem).mono hr⟩

theorem sound_repeatPart_of {part : Option Expr} (hes : ∀ e ∈ part.toList, SoundExpr c e)
    (hp : k.fits → Expr.optionSource part = true) (r : Registry) (d : List Bool) {ty : Ty}
    (h : ty.Declared r) (span : Span) :
    Sound k c r d (repeatPart part ty span) fun _ _ => True := by
  cases part with
  | none => exact .pure fun _ _ => trivial
  | some e =>
    have he := hes e (List.mem_singleton_self e) hp r d (declared_some h)
    exact he.single.bind fun _ _ _ _ => (sound_checkType _ _ _ _).bind fun _ _ _ _ =>
      .pure fun _ _ => trivial

theorem sound_body_of (hstmts : ∀ st ∈ stmts, SoundStmt c st)
    (hs : k.fits → Stmt.allSource stmts = true) (r : Registry) (d : List Bool)
    (hreg : k.fits → d = [] → ∀ s ∈ stmts, Registered c r s) {reported : Bool}
    (hreported : k.steady → reported = false) :
    Sound k c r d (body stmts reported) fun _ _ => True := by
  induction stmts generalizing k r reported with
  | nil => exact .pure fun _ _ => trivial
  | cons first rest ih =>
    rw [List.forall_mem_cons] at hstmts
    simp only [Stmt.allSource, Bool.and_eq_true] at hs
    have hfirst := hstmts.1 (fun hk => (hs hk).1) r d fun hk hd => hreg hk hd first (by simp)
    have hregistered (r₁ : Registry) (h₁ : r.Extends r₁) (hk : k.fits) (hd : d = []) :
        ∀ s ∈ rest, Registered c r₁ s :=
      fun s hmem => (hreg hk hd s (by simp [hmem])).mono h₁
    have hrest (r₁ : Registry) (h₁ : r.Extends r₁) :=
      ih hstmts.2 (fun hk => (hs hk).2) r₁ (hregistered r₁ h₁) hreported
    -- Nothing is asked of what comes after a certain exit.
    have hdead (r₁ : Registry) (h₁ : r.Extends r₁) :
        Sound { k with steady := False } c r₁ d (body rest true) fun _ _ => True :=
      ih (k := { k with steady := False }) hstmts.2 (fun hk => (hs hk).2) r₁ (hregistered r₁ h₁)
        False.elim
    refine hfirst.bind fun _ r₁ h₁ _ => sound_clearNarrowings.bind fun _ r₂ h₂ _ => ?_
    have h₁₂ := h₁.trans h₂
    cases rest with
    | nil => exact .pure fun _ _ => trivial
    | cons next others =>
      refine sound_alwaysLeaves.bind fun certain r₃ h₃ _ => ?_
      split
      · refine .after_unreachable hreported _ fun r₄ h₄ => .get_bind False.elim fun _ r₅ h₅ _ => ?_
        split
        · exact .pure fun _ _ => trivial
        · exact (hdead r₅ (((h₁₂.trans h₃).trans h₄).trans h₅)).bind fun _ _ _ _ =>
            .pure fun _ _ => trivial
      · exact (hrest r₃ (h₁₂.trans h₃)).bind fun _ _ _ _ => .pure fun _ _ => trivial

/-- A body inside another scope, where nothing must be registered. -/
theorem sound_innerBody_of (hstmts : ∀ st ∈ stmts, SoundStmt c st)
    (hs : k.fits → Stmt.allSource stmts = true) (r : Registry) (inner : Bool) (d : List Bool) :
    Sound k c r (inner :: d) (body stmts false) fun _ _ => True :=
  sound_body_of hstmts hs r (inner :: d) (fun _ => nofun) fun _ => rfl

theorem sound_matchArms_of {arms : List MatchArm}
    (hes : ∀ e ∈ arms.flatMap (·.patterns), SoundExpr c e)
    (hstmts : ∀ st ∈ arms.flatMap (·.body), SoundStmt c st)
    (ha : k.fits → MatchArm.allSource arms = true) (r : Registry) (d : List Bool) {subject : Ty}
    (hs : subject.Declared r) : Sound k c r d (matchArms arms subject) fun _ _ => True := by
  induction arms generalizing r with
  | nil => exact .pure fun _ _ => trivial
  | cons arm rest ih =>
    obtain ⟨pats, isDefault, stmts, span⟩ := arm
    rw [List.flatMap_cons, List.forall_mem_append] at hes hstmts
    simp only [MatchArm.allSource, Bool.and_eq_true] at ha
    have hpats := sound_patterns_of hes.1 (fun hk => (ha hk).1.1) r d hs
    have hbody (r : Registry) := sound_innerBody_of hstmts.1 (fun hk => (ha hk).1.2) r false d
    have hrest (r : Registry) (hs : subject.Declared r) :=
      ih hes.2 hstmts.2 (fun hk => (ha hk).2) r hs
    have harm (pats : List Expr) (count : ArmCount → ArmCount) (r₁ : Registry)
        (h₁ : r.Extends r₁) : Sound k c r₁ d (do
          let arm ← inBranch (body stmts false)
          let others ← matchArms rest subject
          return (MatchArm.mk pats isDefault arm.1 span :: others.1, count others.2))
          fun _ _ => True :=
      (sound_inBranch (hbody r₁)).bind fun _ r₂ h₂ _ => (hrest r₂ ((hs.mono h₁).mono h₂)).bind
        fun _ _ _ _ => .pure fun _ _ => trivial
    unfold matchArms
    dsimp only
    split
    · exact .guard (sound_report _ _ fun _ => rfl) fun r₁ h₁ =>
        harm pats (fun n => { n with hasDefault := true }) r₁ h₁
    · exact hpats.bind fun pats r₁ h₁ _ => sound_clearNarrowings.bind fun _ r₂ h₂ _ =>
        harm pats (fun n => { n with cases := n.cases + 1 }) r₂ (h₁.trans h₂)

theorem sound_elseIfs_of {branches : List ElseIf}
    (hes : ∀ e ∈ branches.map (·.condition), SoundExpr c e)
    (hstmts : ∀ st ∈ branches.flatMap (·.body), SoundStmt c st)
    (hb : k.fits → ElseIf.allSource branches = true) (r : Registry) (d : List Bool) :
    Sound k c r d (elseIfs branches) fun _ _ => True := by
  induction branches generalizing r with
  | nil => exact .pure fun _ _ => trivial
  | cons branch rest ih =>
    obtain ⟨condition, stmts, span⟩ := branch
    rw [List.map_cons, List.forall_mem_cons] at hes
    rw [List.flatMap_cons, List.forall_mem_append] at hstmts
    simp only [ElseIf.allSource, Bool.and_eq_true] at hb
    have hcondition := (hes.1 (fun hk => (hb hk).1.1) r d declared_none).single
    have hbody (r : Registry) := sound_innerBody_of hstmts.1 (fun hk => (hb hk).1.2) r false d
    have hrest (r : Registry) := ih hes.2 hstmts.2 (fun hk => (hb hk).2) r
    exact hcondition.bind fun _ _ _ _ => (sound_conditionNarrowings _ _).bind fun _ _ _ hn =>
      (sound_inBranch ((sound_declareNarrowings hn _).bind fun _ r _ _ => hbody r)).bind
        fun _ r₃ _ _ => (hrest r₃).bind fun _ _ _ _ => .pure fun _ _ => trivial

theorem sound_elseBody_of {otherwise : Option (List Stmt)}
    (hstmts : ∀ st ∈ otherwise.getD [], SoundStmt c st)
    (ho : k.fits → Stmt.optionSource otherwise = true) (r : Registry) (d : List Bool)
    {narrowings : List Narrowing} (hn : ∀ n ∈ narrowings, r.HasEntity n.entity) :
    Sound k c r d (elseBody otherwise narrowings) fun _ _ => True := by
  cases otherwise with
  | none => exact (sound_reportExits _).bind fun _ _ _ _ => .pure fun _ _ => trivial
  | some stmts =>
    have hbody (r : Registry) := sound_innerBody_of hstmts ho r false d
    exact (sound_inBranch ((sound_declareNarrowings hn _).bind fun _ r _ _ => hbody r)).bind
      fun _ _ _ _ => .pure fun _ _ => trivial

theorem sound_initializers_of {decls : List VariableDecl}
    (hes : ∀ e ∈ decls.flatMap (·.values), SoundExpr c e)
    (hd : k.fits → VariableDecl.allSource decls = true) (r : Registry) (d : List Bool)
    (owner : DeclRef) (kind : NamedKind) {members : Members} (hm : members.Fine k.plain r) :
    Sound k c r (true :: d) (initializers decls owner kind members) fun _ _ => True := by
  induction decls generalizing r with
  | nil => exact .pure fun _ _ => trivial
  | cons decl rest ih =>
    obtain ⟨names, ty, exprs, isPub, isConst, span⟩ := decl
    rw [List.flatMap_cons, List.forall_mem_append] at hes
    simp only [VariableDecl.allSource, Bool.and_eq_true] at hd
    have hvalues (hints : List Ty) (h : ∀ ty ∈ hints, ty.Declared r) :=
      sound_values_of hes.1 (fun hk => (hd hk).1) r (false :: true :: d) h
    have hrest (r : Registry) (hm : members.Fine k.plain r) :=
      ih hes.2 (fun hk => (hd hk).2) r hm
    unfold initializers
    dsimp only
    split
    · exact (hrest r hm).bind fun _ _ _ _ => .pure fun _ _ => trivial
    · refine Sound.bind (Sound.inRestricted _ ?_ (hvalues _ (declared_initializerHints hm names)))
        fun _ r₁ h₁ hv => ?_
      · exact fun _ _ _ hr h => h.mono hr
      exact (sound_checkValueCount _ _ _ _).bind fun _ _ h₂ _ =>
        (sound_checkInitializers _ _ _ _ (hv.1.mono h₂)).bind fun _ r₃ h₃ _ =>
          (hrest r₃ (hm.mono ((h₁.trans h₂).trans h₃))).bind fun _ _ _ _ =>
            .pure fun _ _ => trivial

theorem sound_constructorBody_of {decl : Option ConstructorDecl}
    (hstmts : ∀ st ∈ decl.toList.flatMap (·.body), SoundStmt c st)
    (hd : k.fits → ConstructorDecl.optionSource decl = true) (r : Registry) (d : List Bool)
    {signature : Option Signature} (hs : ∀ s ∈ signature, s.Declared r) :
    Sound k c r d (constructorBody decl signature) fun _ _ => True := by
  cases decl with
  | none => exact .pure fun _ _ => trivial
  | some decl =>
    obtain ⟨generics, params, stmts, span⟩ := decl
    rw [Option.toList_some, List.flatMap_singleton] at hstmts
    cases signature with
    | none => exact .pure fun _ _ => trivial
    | some signature =>
      have hbody (r : Registry) := sound_innerBody_of hstmts hd r false d
      exact (sound_inFunction (hs signature rfl) _ _ hbody).bind fun _ _ _ _ =>
        (sound_checkFieldsInitialized _).bind fun _ _ _ _ => .pure fun _ _ => trivial

theorem sound_methodBodies_of {decls : List FunctionDecl}
    (hstmts : ∀ st ∈ decls.flatMap (·.body), SoundStmt c st)
    (hd : k.fits → FunctionDecl.allSource decls = true) (r : Registry) (d : List Bool)
    {members : Members} (hm : members.Fine k.plain r) :
    Sound k c r d (methodBodies decls members) fun _ _ => True := by
  induction decls generalizing r with
  | nil => exact .pure fun _ _ => trivial
  | cons decl rest ih =>
    obtain ⟨name, generics, params, returns, stmts, isPub, span⟩ := decl
    rw [List.flatMap_cons, List.forall_mem_append] at hstmts
    simp only [FunctionDecl.allSource, Bool.and_eq_true] at hd
    have hbody (r : Registry) := sound_innerBody_of hstmts.1 (fun hk => (hd hk).1) r false d
    have hrest (r : Registry) (hm : members.Fine k.plain r) :=
      ih hstmts.2 (fun hk => (hd hk).2) r hm
    exact (sound_methodSignature hm _ _ _ _).bind fun _ _ h₁ hs =>
      (sound_inFunction hs _ _ hbody).bind fun _ r₂ h₂ _ =>
        (hrest r₂ (hm.mono (h₁.trans h₂))).bind fun _ _ _ _ => .pure fun _ _ => trivial

theorem sound_firstSpawn_of {decls : List LifecycleDecl}
    (hstmts : ∀ st ∈ decls.flatMap (·.body), SoundStmt c st)
    (hd : k.fits → LifecycleDecl.allSource decls = true) (r : Registry) (d : List Bool)
    {entity : EntityInfo} (he : entity.Fine k.plain r) :
    Sound k c r d (firstSpawn decls entity) fun _ _ => True := by
  induction decls with
  | nil => exact .pure fun _ _ => trivial
  | cons decl rest ih =>
    obtain ⟨kind, generics, params, returns, stmts, span⟩ := decl
    rw [List.flatMap_cons, List.forall_mem_append] at hstmts
    simp only [LifecycleDecl.allSource, Bool.and_eq_true] at hd
    have hbody (r : Registry) := sound_innerBody_of hstmts.1 (fun hk => (hd hk).1) r false d
    have hrest := ih hstmts.2 (fun hk => (hd hk).2)
    unfold firstSpawn
    split
    · exact (sound_walkedSignature he _ _ _ _ _).bind fun _ _ _ hs =>
        (sound_inFunction hs _ _ hbody).bind fun _ _ _ _ =>
          .guard (sound_checkFieldsInitialized _) fun _ _ => .pure fun _ _ => trivial
    · exact hrest

theorem sound_otherLifecycles_of {decls : List LifecycleDecl}
    (hstmts : ∀ st ∈ decls.flatMap (·.body), SoundStmt c st)
    (hd : k.fits → LifecycleDecl.allSource decls = true) (r : Registry) (d : List Bool)
    {entity : EntityInfo} (he : entity.Fine k.plain r) (spawned : Option LifecycleDecl)
    (seen : List LifecycleKind) :
    Sound k c r d (otherLifecycles decls entity spawned seen) fun _ _ => True := by
  induction decls generalizing r spawned seen with
  | nil => exact .pure fun _ _ => trivial
  | cons decl rest ih =>
    obtain ⟨kind, generics, params, returns, stmts, span⟩ := decl
    rw [List.flatMap_cons, List.forall_mem_append] at hstmts
    simp only [LifecycleDecl.allSource, Bool.and_eq_true] at hd
    have hbody (r : Registry) := sound_innerBody_of hstmts.1 (fun hk => (hd hk).1) r false d
    have hrest (r : Registry) (he : entity.Fine k.plain r) (spawned : Option LifecycleDecl)
        (seen : List LifecycleKind) := ih hstmts.2 (fun hk => (hd hk).2) r he spawned seen
    unfold otherLifecycles
    split
    · exact (hrest r he _ _).bind fun _ _ _ _ => .pure fun _ _ => trivial
    · exact (sound_walkedSignature he _ _ _ _ _).bind fun _ _ h₁ hs =>
        (sound_inFunction hs _ _ hbody).bind fun _ _ h₂ _ =>
          .guard (sound_checkFieldsInitialized _) fun r₃ h₃ =>
            (hrest r₃ (he.mono ((h₁.trans h₂).trans h₃)) _ _).bind fun _ _ _ _ =>
              .pure fun _ _ => trivial

end Nodes

/-! ## Nodes -/

theorem sound_expr_of {e : Expr} (hes : ∀ child ∈ e.children, SoundExpr c child)
    (hpatterns : ∀ pattern ∈ e.patterns, SoundExpr c pattern)
    (hstmts : ∀ st ∈ e.statements, SoundStmt c st) : SoundExpr c e := by
  intro k he r d hint hh
  cases e with
  | literal lit => exact .pure fun _ _ => lit.fine_toValue.loose
  | ident id => exact (sound_identifier id).mono fun _ _ h => h.loose
  | builtin id =>
    exact (sound_builtinValue id).bind fun _ _ _ h => .pure fun _ hr => (h.mono hr).loose
  | envAccess env name span => exact (sound_qualifiedName env name span).mono fun _ _ h => h.loose
  | unary op operand span =>
    have hoperand := (hes operand (List.mem_singleton_self _) he r d declared_none).single
    exact hoperand.bind fun _ _ _ h => (sound_unaryValue _ h _).bind fun _ _ _ h =>
      .pure fun _ hr => (h.mono hr).loose
  | binary left op right span =>
    obtain ⟨hleft, hright⟩ := List.forall_mem_cons.1 hes
    simp only [Expr.isSource, Bool.and_eq_true] at he
    have hleft (r : Registry) := (hleft (fun hk => (he hk).1) r d declared_none).single
    have hright (r : Registry) (ty : Ty) (h : ty.Declared r) :=
      (hright right (List.mem_singleton_self _) (fun hk => (he hk).2) r d (declared_some h)).single
    refine .get_bind (fun _ _ _ => rfl) fun _ r₁ _ _ => (hleft r₁).bind fun p r₂ _ hp =>
      (hright r₂ _ hp.ty).bind fun _ r₃ h₃ _ => .guard (sound_dropUnderOr _ _) fun r₄ h₄ => ?_
    have hvalue : p.2.Fine k.plain r₄ := Value.Fine.mono h₄ (Value.Fine.mono h₃ hp)
    exact (sound_binaryValue _ hvalue _ _).bind fun _ _ _ h => .pure fun _ hr => (h.mono hr).loose
  | group inner span =>
    exact (hes inner (List.mem_singleton_self _) he r d hh).bind fun _ _ _ h =>
      .pure fun _ hr => Value.Loose.mono hr h
  | list elems span =>
    refine (sound_checkKnown _ _ _).bind fun _ r₁ h₁ _ => ?_
    have hhint := declared_hinted (fun ty hty => (hh ty hty).mono h₁) .list
    exact (sound_elements_of hes he r₁ d hhint).bind fun _ _ _ h => .pure fun _ hr =>
      ⟨(declared_getD h).mono hr, by simp [Value.toList, Value.isPlain]⟩
  | map entries span =>
    refine (sound_checkKnown _ _ _).bind fun _ r₁ h₁ _ => ?_
    have hhint := declared_hinted (fun ty hty => (hh ty hty).mono h₁) .map
    exact (sound_mapEntries_of hes he r₁ d [] hhint).bind fun _ _ _ h => .pure fun _ hr =>
      ⟨(declared_getD h).mono hr, by simp [Value.toList, Value.isPlain]⟩
  | call caller generics args returnAmount span =>
    obtain ⟨hcaller, hargs⟩ := List.forall_mem_cons.1 hes
    simp only [Expr.isSource, Bool.and_eq_true] at he
    have hvalues (r : Registry) (hints : List Ty) (h : ∀ ty ∈ hints, ty.Declared r) :=
      sound_values_of hargs (fun hk => (he hk).2) r d h
    have hargs (r : Registry) := sound_unchecked_of hargs (fun hk => (he hk).2) r d
    refine (hcaller (fun hk => (he hk).1) r d declared_none).single.bind fun p r₁ _ hp => ?_
    obtain ⟨caller', callee⟩ := p
    dsimp only
    split
    · next signature =>
      have hsignature : signature.Declared r₁ := hp.declared
      exact (sound_call hsignature _ hvalues _).bind fun _ _ _ h => .pure fun _ hr =>
        loose_callValue (h.mono hr)
    · refine .guardIf (fun hguard => sound_report _ _ fun hk => ?_) fun r₂ _ =>
        (hargs r₂).bind fun _ _ _ _ => .pure fun _ _ => Value.fine_invalid.loose
      exact isProper_invalidCallerType (hp.isPlain (k.plain_of_proper hk)) (by simpa using hguard)
  | methodCall receiver owner kind method generics args returnAmount span =>
    obtain ⟨hreceiver, hargs⟩ := List.forall_mem_cons.1 hes
    have hfits : ¬k.fits := fun hk => Bool.false_ne_true (he hk)
    have hvalues (r : Registry) (hints : List Ty) (h : ∀ ty ∈ hints, ty.Declared r) :=
      sound_values_of hargs (fun hk => absurd hk hfits) r d h
    have hargs (r : Registry) := sound_unchecked_of hargs (fun hk => absurd hk hfits) r d
    refine (hreceiver (fun hk => absurd hk hfits) r d declared_none).single.bind fun _ r₁ _ _ =>
      (sound_calledMethod owner kind method hfits).bind fun called r₂ _ hcalled => ?_
    cases called with
    | found signature =>
      exact (sound_call (hcalled signature rfl) _ hvalues _).bind fun _ _ _ h => .pure fun _ hr =>
        loose_callValue (h.mono hr)
    | missing => exact (hargs r₂).bind fun _ _ _ _ => .pure fun _ _ => Value.fine_invalid.loose
    | ownerless => exact .pure fun _ _ => Value.fine_invalid.loose
  | field target field index span =>
    exact (hes target (List.mem_singleton_self _) he r d declared_none).single.bind fun _ _ _ h =>
      (sound_fieldAccess _ h _ _ _).mono fun _ _ h => h.loose
  | member target index span =>
    obtain ⟨htarget, hindex⟩ := List.forall_mem_cons.1 hes
    simp only [Expr.isSource, Bool.and_eq_true] at he
    have htarget := (htarget (fun hk => (he hk).1) r d declared_none).single
    have hindex (r : Registry) :=
      (hindex index (List.mem_singleton_self _) (fun hk => (he hk).2) r d declared_none).single
    exact htarget.bind fun _ r₁ _ h => (hindex r₁).bind fun _ _ h₂ _ =>
      (sound_elementValue _ (Value.Fine.mono h₂ h) _ _).bind fun _ _ _ h =>
        .pure fun _ hr => (h.mono hr).loose
  | self owner span =>
    exact (sound_selfValue _).bind fun _ _ _ h => .pure fun _ hr => (h.mono hr).loose
  | new ty generics args span =>
    have hvalues (r : Registry) (hints : List Ty) (h : ∀ ty ∈ hints, ty.Declared r) :=
      sound_values_of hes he r d h
    have hargs (r : Registry) := sound_unchecked_of hes he r d
    refine (sound_constructed _ _ _).bind fun found r₁ _ hfound => ?_
    have hobject (r' : Registry) (hr : r₁.Extends r') :
        ((found.1.map Value.classObject).getD .invalid).Loose k.plain r' :=
      loose_classObject? fun ref href => hr.classes _ (hfound.1 ref href)
    obtain ⟨ref, _ | signature⟩ := found
    · exact (hargs r₁).bind fun _ _ h₂ _ => .pure fun _ hr => hobject _ (h₂.trans hr)
    · exact (sound_call (hfound.2 signature rfl) _ hvalues _).bind fun _ _ h₂ _ =>
        .pure fun _ hr => hobject _ (h₂.trans hr)
  | spawn ty generics args span =>
    have hvalues (r : Registry) (hints : List Ty) (h : ∀ ty ∈ hints, ty.Declared r) :=
      sound_values_of hes he r d h
    have hargs (r : Registry) := sound_unchecked_of hes he r d
    refine (sound_constructed _ _ _).bind fun found r₁ _ hfound => ?_
    have hobject (r' : Registry) (hr : r₁.Extends r') :
        ((found.1.map Value.entityObject).getD .invalid).Loose k.plain r' :=
      loose_entityObject? fun ref href => hr.entities _ (hfound.1 ref href)
    obtain ⟨ref, _ | signature⟩ := found
    · exact (hargs r₁).bind fun _ _ h₂ _ => .pure fun _ hr => hobject _ (h₂.trans hr)
    · exact (sound_call (hfound.2 signature rfl) _ hvalues _).bind fun _ _ h₂ _ =>
        .pure fun _ hr => hobject _ (h₂.trans hr)
  | function params returns stmts span =>
    have hbody (r : Registry) := sound_innerBody_of hstmts he r false d
    exact (sound_resolveSignature _ _ _).bind fun _ _ _ hs =>
      (sound_inFunction hs _ _ hbody).bind fun _ _ h₂ _ => .pure fun _ hr =>
        ⟨Signature.Declared.mono hr (hs.mono h₂), by simp [Value.toList, Value.isPlain]⟩
  | matching subject arms returnAmount span =>
    simp only [Expr.isSource, Bool.and_eq_true] at he
    have hsubject := hes subject (List.mem_singleton_self _) (fun hk => (he hk).1) r d declared_none
    have harms (r : Registry) (ty : Ty) (h : ty.Declared r) :=
      sound_matchArms_of hpatterns hstmts (fun hk => (he hk).2) r (false :: d) h
    refine hsubject.single.bind fun _ r₁ _ hp => ?_
    refine Sound.bind (Sound.inPushed _ (by simp [ScopeTag.Valid]) (fun _ _ _ _ _ => trivial)
      (harms r₁ _ hp.ty)) fun _ r₂ _ h => ?_
    exact (sound_matchValue _ h.2 _).bind fun _ _ _ h => .pure fun _ hr => h.mono hr
  | entityTest value ty binding negated official span =>
    exact (hes value (List.mem_singleton_self _) he r d declared_none).single.bind fun _ _ _ _ =>
      (sound_checkType _ _ _ _).bind fun _ _ _ _ => (sound_entityTest _ _ _ _).bind
        fun _ _ _ _ => .pure fun _ _ => fine_bool.loose
  | error span => exact .pure fun _ _ => Value.fine_invalid.loose

theorem sound_variable {decl : VariableDecl} (hes : ∀ e ∈ decl.values, SoundExpr c e)
    (hs : k.fits → Expr.allSource decl.values = true) (r : Registry) (d : List Bool) :
    Sound k c r d (stmt (.variable decl)) fun _ _ => True := by
  obtain ⟨names, ty, exprs, isPub, isConst, span⟩ := decl
  have hvalues (r : Registry) (hints : List Ty) (h : ∀ ty ∈ hints, ty.Declared r) :
      Sound k c r d (values exprs hints) fun r' p => YieldsAll k r' p.2 :=
    sound_values_of hes hs r d h
  have hnames (decl : Declaration) (r₁ : Registry) (hd : ∀ ty ∈ decl.declared, ty.Declared r₁)
      (given : List Expr × List Value) (hg : ∀ v ∈ given.2, v.Fine k.plain r₁) :
      Sound k c r₁ d (do
        declareNames decl names given.2 (inlinedLiterals names given.1)
        return Stmt.variable ⟨names, ty, given.1, isPub, isConst, span⟩) fun _ _ => True :=
    (sound_declareNames hd _ hg _).bind fun _ _ _ _ => .pure fun _ _ => trivial
  unfold stmt
  refine sound_guard_scopes (sound_report _ _ fun _ => rfl) fun r₁ _ => ?_
  refine .guard (sound_report _ _ fun _ => rfl) fun r₂ _ => (sound_resolveType? _).bind
    fun declared r₃ _ hd => ?_
  dsimp only
  split
  · exact Sound.bind (sound_defaultValues hd) fun given r₄ h₄ hg =>
      hnames _ r₄ (fun ty hty => (hd ty hty).mono h₄) given hg
  · have hhints : ∀ t ∈ List.replicate exprs.length (declared.getD .invalid),
        t.Declared r₃ := fun t ht => (List.eq_of_mem_replicate ht) ▸ declared_getD hd
    refine (hvalues r₃ _ hhints).bind fun given r₄ h₄ hg =>
      (sound_checkValueCount _ _ _ _).bind fun _ r₅ h₅ _ => ?_
    refine hnames _ r₅ (fun ty hty => ((hd ty hty).mono h₄).mono h₅)
      (given.1, given.2.map Prod.fst) fun v hv => ?_
    obtain ⟨p, hp, rfl⟩ := List.mem_map.1 hv
    exact (hg p hp).mono h₅

theorem sound_classDecl {decl : ClassDecl}
    (hes : ∀ e ∈ decl.fields.flatMap (·.values), SoundExpr c e)
    (hmethods : ∀ st ∈ decl.methods.flatMap (·.body), SoundStmt c st)
    (hconstructor : ∀ st ∈ decl.constructor.toList.flatMap (·.body), SoundStmt c st)
    (hs : k.fits → (Stmt.classDecl decl).isSource = true) (r : Registry) (d : List Bool)
    (hreg : k.fits → d = [] → r.HasClass ⟨c.env, decl.name.name⟩) :
    Sound k c r d (stmt (.classDecl decl)) fun _ _ => True := by
  obtain ⟨name, isPub, fields, methods, constructor, span⟩ := decl
  simp only [Stmt.isSource, Bool.and_eq_true] at hs
  refine (sound_atRoot _ _).bind fun isRoot r₁ h₁ hroot => sound_lookup (fun hisRoot =>
    sound_ownClass? fun hk => h₁.classes _ (hreg hk (hroot hisRoot))) fun found r₁ _ hf => ?_
  cases found with
  | none => exact .pure fun _ _ => trivial
  | some info =>
    have hi := hf info rfl
    have htag : (ScopeTag.classBody info.ty).Valid r₁ := hi.ty
    have hfields (r : Registry) (hi : info.Fine k.plain r) :=
      sound_initializers_of hes (fun hk => (hs hk).1.1) r d info.ty .classDecl hi.members
    have hnew (r : Registry) (hi : info.Fine k.plain r) :=
      sound_constructorBody_of hconstructor (fun hk => (hs hk).2) r (true :: d) hi.constructor
    have hbodies (r : Registry) (hi : info.Fine k.plain r) :=
      sound_methodBodies_of hmethods (fun hk => (hs hk).1.2) r (true :: d) hi.members
    refine Sound.bind (Sound.inPushed _ htag (R := fun _ _ => True)
      (fun _ _ _ _ _ => trivial) ?_) fun _ _ _ _ => .pure fun _ _ => trivial
    exact (sound_bindMembers hi.members).bind fun _ r₂ h₂ _ =>
      (hfields r₂ (hi.mono h₂)).bind fun _ r₃ h₃ _ =>
        (hnew r₃ (hi.mono (h₂.trans h₃))).bind fun _ r₄ h₄ _ =>
          (hbodies r₄ (hi.mono ((h₂.trans h₃).trans h₄))).bind fun _ _ _ _ =>
            .pure fun _ _ => trivial

theorem sound_entityDecl {decl : EntityDecl}
    (hes : ∀ e ∈ decl.fields.flatMap (·.values), SoundExpr c e)
    (hmethods : ∀ st ∈ decl.methods.flatMap (·.body), SoundStmt c st)
    (hfunctions : ∀ st ∈ decl.functions.flatMap (·.body), SoundStmt c st)
    (hs : k.fits → (Stmt.entityDecl decl).isSource = true) (r : Registry) (d : List Bool)
    (hreg : k.fits → d = [] → r.HasEntity ⟨c.env, decl.name.name⟩) :
    Sound k c r d (stmt (.entityDecl decl)) fun _ _ => True := by
  obtain ⟨name, isPub, fields, methods, functions, span⟩ := decl
  simp only [Stmt.isSource, Bool.and_eq_true] at hs
  refine (sound_atRoot _ _).bind fun isRoot r₁ h₁ hroot => sound_lookup (fun hisRoot =>
    sound_ownEntity? fun hk => h₁.entities _ (hreg hk (hroot hisRoot))) fun found r₁ _ hf => ?_
  cases found with
  | none => exact .pure fun _ _ => trivial
  | some info =>
    have hi := hf info rfl
    have htag : (ScopeTag.entityBody info.ty).Valid r₁ := hi.ty
    have hfields (r : Registry) (hi : info.Fine k.plain r) :=
      sound_initializers_of hes (fun hk => (hs hk).1.1) r d info.ty .entityDecl hi.members
    have hspawn (r : Registry) (hi : info.Fine k.plain r) :=
      sound_firstSpawn_of hfunctions (fun hk => (hs hk).2) r (true :: d) hi
    have hothers (r : Registry) (hi : info.Fine k.plain r) (spawned : Option LifecycleDecl)
        (seen : List LifecycleKind) :=
      sound_otherLifecycles_of hfunctions (fun hk => (hs hk).2) r (true :: d) hi spawned seen
    have hbodies (r : Registry) (hi : info.Fine k.plain r) :=
      sound_methodBodies_of hmethods (fun hk => (hs hk).1.2) r (true :: d) hi.members
    refine Sound.bind (Sound.inPushed _ htag (R := fun _ _ => True)
      (fun _ _ _ _ _ => trivial) ?_) fun _ _ _ _ => .pure fun _ _ => trivial
    exact (sound_bindMembers hi.members).bind fun _ r₂ h₂ _ =>
      (hfields r₂ (hi.mono h₂)).bind fun _ r₃ h₃ _ =>
        (hspawn r₃ (hi.mono (h₂.trans h₃))).bind fun _ r₄ h₄ _ =>
          (hothers r₄ (hi.mono ((h₂.trans h₃).trans h₄)) _ _).bind fun _ r₅ h₅ _ =>
            (hbodies r₅ (hi.mono (((h₂.trans h₃).trans h₄).trans h₅))).bind
              fun _ _ _ _ => .pure fun _ _ => trivial

theorem sound_stmt_of {st : Stmt} (hes : ∀ e ∈ st.expressions, SoundExpr c e)
    (hstmts : ∀ inner ∈ st.statements, SoundStmt c inner) : SoundStmt c st := by
  intro k hs r d hreg
  cases st with
  | env decl => exact (sound_report _ _ fun _ => rfl).bind fun _ _ _ _ => .pure fun _ _ => trivial
  | «variable» decl =>
    have hsource : k.fits → Expr.allSource decl.values = true := by
      obtain ⟨names, ty, values, isPub, isConst, span⟩ := decl
      exact hs
    exact sound_variable hes hsource r d
  | function decl =>
    obtain ⟨name, generics, params, returns, stmts, isPub, span⟩ := decl
    have hbody (r : Registry) := sound_innerBody_of hstmts hs r false d
    exact (sound_functionSignature _ _ _ _ _ _).bind fun _ _ _ hsig =>
      (sound_inFunction hsig _ _ hbody).bind fun _ _ _ _ => .pure fun _ _ => trivial
  | classDecl decl =>
    obtain ⟨hmethods, hconstructor⟩ := List.forall_mem_append.1 hstmts
    exact sound_classDecl hes hmethods hconstructor hs r d hreg
  | entityDecl decl =>
    obtain ⟨hmethods, hfunctions⟩ := List.forall_mem_append.1 hstmts
    exact sound_entityDecl hes hmethods hfunctions hs r d hreg
  | enumDecl decl => exact (sound_atRoot _ _).bind fun _ _ _ _ => .pure fun _ _ => trivial
  | aliasDecl decl => exact (sound_atRoot _ _).bind fun _ _ _ _ => .pure fun _ _ => trivial
  | assign targets op exprs span =>
    obtain ⟨htargets, hexprs⟩ := List.forall_mem_append.1 hes
    simp only [Stmt.isSource, Bool.and_eq_true] at hs
    have hplaces := sound_places_of htargets (fun hk => (hs hk).1) r d
    have hvalues (r : Registry) (hints : List Ty) (h : ∀ ty ∈ hints, ty.Declared r) :=
      sound_values_of hexprs (fun hk => (hs hk).2) r d h
    refine hplaces.bind fun p r₁ _ hp => ?_
    have hhints : ∀ ty ∈ p.2.map Value.ty, ty.Declared r₁ := by
      intro ty hty
      obtain ⟨v, hv, rfl⟩ := List.mem_map.1 hty
      exact (hp v hv).ty
    exact (hvalues r₁ _ hhints).bind fun _ _ h₂ _ => (sound_checkValueCount _ _ _ _).bind
      fun _ _ h₃ _ => (sound_checkAssigned _ (fun v hv => ((hp v hv).mono h₂).mono h₃) _).bind
        fun _ _ _ _ => .pure fun _ _ => trivial
  | ifChain condition stmts elseifs otherwise span =>
    obtain ⟨hcondition, hconditions⟩ := List.forall_mem_cons.1 hes
    obtain ⟨hthen, hstmts⟩ := List.forall_mem_append.1 hstmts
    obtain ⟨hbodies, helse⟩ := List.forall_mem_append.1 hstmts
    simp only [Stmt.isSource, Bool.and_eq_true] at hs
    have hcondition := (hcondition (fun hk => (hs hk).1.1.1) r d declared_none).single
    have hbody (r : Registry) :=
      sound_innerBody_of hthen (fun hk => (hs hk).1.1.2) r false (false :: d)
    have helseifs (r : Registry) :=
      sound_elseIfs_of hconditions hbodies (fun hk => (hs hk).1.2) r (false :: d)
    have hotherwise (r : Registry) (narrowings : List Narrowing)
        (hn : ∀ n ∈ narrowings, r.HasEntity n.entity) :=
      sound_elseBody_of helse (fun hk => (hs hk).2) r (false :: d) hn
    refine hcondition.bind fun _ r₁ _ _ => (sound_conditionNarrowings _ _).bind
      fun narrowings r₂ _ hn => ?_
    have hfirst := sound_inBranch ((sound_declareNarrowings hn false).bind fun _ r _ _ => hbody r)
    have hchain := hfirst.bind (Q := fun _ _ => True) fun a r₃ h₃ _ => (helseifs r₃).bind
      fun b r₄ h₄ _ => (hotherwise r₄ narrowings fun n hmem =>
        h₄.entities _ (h₃.entities _ (hn n hmem))).bind fun e _ _ _ =>
          .pure (a := (a.1, a.2, b, e)) fun _ _ => trivial
    refine Sound.bind (Sound.inPushed .empty trivial (fun _ _ _ _ _ => trivial) hchain)
      fun _ r₃ h₃ _ => ?_
    exact .guard (sound_declareNarrowings (fun n hmem => h₃.entities _ (hn n hmem)) _) fun _ _ =>
      .pure fun _ _ => trivial
  | repeatLoop iterator start skip counter stmts span =>
    obtain ⟨hiterator, hparts⟩ := List.forall_mem_cons.1 hes
    obtain ⟨hstart, hskip⟩ := List.forall_mem_append.1 hparts
    simp only [Stmt.isSource, Bool.and_eq_true] at hs
    have hiterator := (hiterator (fun hk => (hs hk).1.1.1) r d declared_none).single
    have hstart (r : Registry) (ty : Ty) (h : ty.Declared r) :=
      sound_repeatPart_of hstart (fun hk => (hs hk).1.1.2) r d h span
    have hskip (r : Registry) (ty : Ty) (h : ty.Declared r) :=
      sound_repeatPart_of hskip (fun hk => (hs hk).1.2) r d h span
    have hbody (r : Registry) := sound_innerBody_of hstmts (fun hk => (hs hk).2) r false d
    refine hiterator.bind fun _ _ _ hp => (sound_repeatType _ hp).bind fun ty r₂ _ hty =>
      (hstart r₂ ty hty).bind fun _ r₃ h₃ _ => (hskip r₃ ty (hty.mono h₃)).bind
        fun _ r₄ h₄ _ => ?_
    refine (sound_inLoop _ (fun p hp => ?_) fun r _ => hbody r).bind fun _ _ _ _ =>
      .pure fun _ _ => trivial
    obtain ⟨id, -, rfl⟩ := List.mem_map.1 hp
    exact ⟨Ty.fine_toValue ((hty.mono h₃).mono h₄), Ty.literal?_toValue _⟩
  | whileLoop condition stmts span =>
    simp only [Stmt.isSource, Bool.and_eq_true] at hs
    have hcondition :=
      hes condition (List.mem_singleton_self _) (fun hk => (hs hk).1) r d declared_none
    have hbody (r : Registry) := sound_innerBody_of hstmts (fun hk => (hs hk).2) r false d
    exact hcondition.single.bind fun _ _ _ _ => (sound_conditionNarrowings _ _).bind fun _ _ _ hn =>
      (sound_inLoop _ (by simp) fun r' hr => (sound_declareNarrowings (fun n hmem =>
        hr.entities _ (hn n hmem)) _).bind fun _ r _ _ => hbody r).bind fun _ _ _ _ =>
          .pure fun _ _ => trivial
  | forLoop key value iterator stmts span =>
    simp only [Stmt.isSource, Bool.and_eq_true] at hs
    have hiterator :=
      hes iterator (List.mem_singleton_self _) (fun hk => (hs hk).1) r d declared_none
    have hbody (r : Registry) := sound_innerBody_of hstmts (fun hk => (hs hk).2) r false d
    refine hiterator.single.bind fun _ _ _ hp => (sound_iterated _ hp).bind fun found r₂ _ hf =>
      (sound_forKey _ _).bind fun _ r₃ h₃ _ => ?_
    refine (sound_inLoop _ (fun p hp => ?_) fun r _ => hbody r).bind fun _ _ _ _ =>
      .pure fun _ _ => trivial
    rcases List.mem_cons.1 hp with rfl | hp
    · exact ⟨hf.1.1.mono h₃, hf.1.2⟩
    · obtain ⟨id, -, rfl⟩ := List.mem_map.1 hp
      exact ⟨hf.2.1.mono h₃, hf.2.2⟩
  | tick counter stmts span =>
    have hbody (r : Registry) := sound_innerBody_of hstmts hs r false d
    refine (sound_inLoop _ (fun p hp => ?_) fun r _ => hbody r).bind fun _ _ _ _ =>
      .pure fun _ _ => trivial
    obtain ⟨id, -, rfl⟩ := List.mem_map.1 hp
    exact ⟨fine_number _, rfl⟩
  | matching subject arms span =>
    obtain ⟨hsubject, hpatterns⟩ := List.forall_mem_cons.1 hes
    simp only [Stmt.isSource, Bool.and_eq_true] at hs
    have hsubject := (hsubject (fun hk => (hs hk).1) r d declared_none).single
    have harms (r : Registry) (ty : Ty) (h : ty.Declared r) :=
      sound_matchArms_of hpatterns hstmts (fun hk => (hs hk).2) r (false :: d) h
    refine hsubject.bind fun _ r₁ _ hp => ?_
    have hinside := (harms r₁ _ hp.ty).bind (Q := fun _ _ => True)
      (f := fun p => do
        if !p.2.hasDefault then modifyScopes (·.reportExits .empty)
        pure (p.1, p.2)) fun _ _ _ _ =>
      .guard (sound_reportExits _) fun _ _ => .pure fun _ _ => trivial
    refine Sound.bind (Sound.inPushed .empty trivial (fun _ _ _ _ _ => trivial) hinside)
      fun _ _ _ _ => ?_
    exact .guard (sound_report _ _ fun _ => rfl) fun _ _ => .pure fun _ _ => trivial
  | returning exprs span =>
    have hvalues (r : Registry) (hints : List Ty) (h : ∀ ty ∈ hints, ty.Declared r) :=
      sound_values_of hes hs r d h
    unfold stmt
    refine (sound_exitAllowed _ _ _).bind fun allowed r₁ _ _ => ?_
    split
    · exact sound_returnTypes.bind fun _ r₂ _ h => (hvalues r₂ _ ((Ty.allDeclared_iff _).1 h)).bind
        fun _ _ _ _ => (sound_checkReturn _ _ _).bind fun _ _ _ _ => .pure fun _ _ => trivial
    · exact (hvalues r₁ [] (by simp)).bind fun _ _ _ _ => .pure fun _ _ => trivial
  | yielding exprs span =>
    have hvalues (r : Registry) (hints : List Ty) (h : ∀ ty ∈ hints, ty.Declared r) :=
      sound_values_of hes hs r d h
    unfold stmt
    refine (sound_exitAllowed _ _ _).bind fun allowed r₁ _ _ => ?_
    split
    · refine sound_yieldTarget.bind fun p r₂ _ h => ?_
      have hhints : ∀ ty ∈ p.2.getD [], ty.Declared r₂ := by
        cases hknown : p.2 with
        | none => simp
        | some types => exact (Ty.allDeclared_iff _).1 (h types hknown)
      exact (hvalues r₂ _ hhints).bind fun _ _ _ hv => (sound_checkYield _ _ hv _).bind
        fun _ _ _ _ => .pure fun _ _ => trivial
    · exact (hvalues r₁ [] (by simp)).bind fun _ _ _ _ => .pure fun _ _ => trivial
  | breaking span | continuing span =>
    exact (sound_exitAllowed _ _ _).bind fun _ _ _ _ => .guard (sound_markExit _) fun _ _ =>
      .pure fun _ _ => trivial
  | destroy target generics args span =>
    obtain ⟨htarget, hargs⟩ := List.forall_mem_cons.1 hes
    simp only [Stmt.isSource, Bool.and_eq_true] at hs
    have htarget := (htarget (fun hk => (hs hk).1) r d declared_none).single
    have hvalues (r : Registry) (hints : List Ty) (h : ∀ ty ∈ hints, ty.Declared r) :=
      sound_values_of hargs (fun hk => (hs hk).2) r d h
    have hargs (r : Registry) := sound_unchecked_of hargs (fun hk => (hs hk).2) r d
    refine htarget.bind fun _ _ _ hp => (sound_destroyer? _ hp).bind fun found r₂ _ hf => ?_
    split
    · next signature =>
      exact (sound_call (hf signature rfl) _ hvalues _).bind fun _ _ _ _ => .pure fun _ _ => trivial
    · exact (hargs r₂).bind fun _ _ _ _ => .pure fun _ _ => trivial
  | use decl =>
    exact sound_scopes.bind fun _ _ _ _ => .guard (sound_useEnvironment _) fun _ _ =>
      .pure fun _ _ => trivial
  | expr e =>
    exact (hes e (List.mem_singleton_self _) hs r d declared_none).bind fun _ _ _ _ =>
      .pure fun _ _ => trivial
  | error span => exact .pure fun _ _ => trivial

/-! ## Trees -/

theorem sound_tree (c : Context) : (∀ e, SoundExpr c e) ∧ ∀ st, SoundStmt c st :=
  Tree.induction (fun _ hes hpatterns hstmts => sound_expr_of hes hpatterns hstmts)
    fun _ hes hstmts => sound_stmt_of hes hstmts

theorem sound_expr (e : Expr) (he : k.fits → e.isSource = true) (r : Registry) (d : List Bool)
    {hint : Option Ty} (hh : ∀ ty ∈ hint, ty.Declared r) :
    Sound k c r d (expr e hint) (Yields k) :=
  (sound_tree c).1 e he r d hh

theorem sound_stmt (st : Stmt) (hs : k.fits → st.isSource = true) (r : Registry) (d : List Bool)
    (hreg : k.fits → d = [] → Registered c r st) : Sound k c r d (stmt st) fun _ _ => True :=
  (sound_tree c).2 st hs r d hreg

theorem sound_values (es : List Expr) (he : k.fits → Expr.allSource es = true) (r : Registry)
    (d : List Bool) {hints : List Ty} (hh : ∀ ty ∈ hints, ty.Declared r) :
    Sound k c r d (values es hints) fun r' p => YieldsAll k r' p.2 :=
  sound_values_of (fun e _ => (sound_tree c).1 e) he r d hh

theorem sound_patterns (es : List Expr) (he : k.fits → Expr.allSource es = true) (r : Registry)
    (d : List Bool) {subject : Ty} (hs : subject.Declared r) :
    Sound k c r d (patterns es subject) fun _ _ => True :=
  sound_patterns_of (fun e _ => (sound_tree c).1 e) he r d hs

theorem sound_body (stmts : List Stmt) (hs : k.fits → Stmt.allSource stmts = true) (r : Registry)
    (d : List Bool) (hreg : k.fits → d = [] → ∀ s ∈ stmts, Registered c r s) {reported : Bool}
    (hreported : k.steady → reported = false) :
    Sound k c r d (body stmts reported) fun _ _ => True :=
  sound_body_of (fun st _ => (sound_tree c).2 st) hs r d hreg hreported

theorem sound_places (es : List Expr) (he : k.fits → Expr.allSource es = true) (r : Registry)
    (d : List Bool) : Sound k c r d (places es) fun r' p => ∀ v ∈ p.2, v.Fine k.plain r' :=
  sound_places_of (fun e _ => (sound_tree c).1 e) he r d

theorem sound_repeatPart (part : Option Expr) (hp : k.fits → Expr.optionSource part = true)
    (r : Registry) (d : List Bool) {ty : Ty} (h : ty.Declared r) (span : Span) :
    Sound k c r d (repeatPart part ty span) fun _ _ => True :=
  sound_repeatPart_of (fun e _ => (sound_tree c).1 e) hp r d h span

theorem sound_elseIfs (branches : List ElseIf) (hb : k.fits → ElseIf.allSource branches = true)
    (r : Registry) (d : List Bool) : Sound k c r d (elseIfs branches) fun _ _ => True :=
  sound_elseIfs_of (fun e _ => (sound_tree c).1 e) (fun st _ => (sound_tree c).2 st) hb r d

theorem sound_initializers (decls : List VariableDecl)
    (hd : k.fits → VariableDecl.allSource decls = true) (r : Registry) (d : List Bool)
    (owner : DeclRef) (kind : NamedKind) {members : Members} (hm : members.Fine k.plain r) :
    Sound k c r (true :: d) (initializers decls owner kind members) fun _ _ => True :=
  sound_initializers_of (fun e _ => (sound_tree c).1 e) hd r d owner kind hm

theorem sound_constructorBody (decl : Option ConstructorDecl)
    (hd : k.fits → ConstructorDecl.optionSource decl = true) (r : Registry) (d : List Bool)
    {signature : Option Signature} (hs : ∀ s ∈ signature, s.Declared r) :
    Sound k c r d (constructorBody decl signature) fun _ _ => True :=
  sound_constructorBody_of (fun st _ => (sound_tree c).2 st) hd r d hs

theorem sound_firstSpawn (decls : List LifecycleDecl)
    (hd : k.fits → LifecycleDecl.allSource decls = true) (r : Registry) (d : List Bool)
    {entity : EntityInfo} (he : entity.Fine k.plain r) :
    Sound k c r d (firstSpawn decls entity) fun _ _ => True :=
  sound_firstSpawn_of (fun st _ => (sound_tree c).2 st) hd r d he

theorem sound_otherLifecycles (decls : List LifecycleDecl)
    (hd : k.fits → LifecycleDecl.allSource decls = true) (r : Registry) (d : List Bool)
    {entity : EntityInfo} (he : entity.Fine k.plain r) (spawned : Option LifecycleDecl)
    (seen : List LifecycleKind) :
    Sound k c r d (otherLifecycles decls entity spawned seen) fun _ _ => True :=
  sound_otherLifecycles_of (fun st _ => (sound_tree c).2 st) hd r d he spawned seen

end HybroidSema.Check
