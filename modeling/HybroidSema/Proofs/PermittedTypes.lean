import HybroidSema.Proofs.PermittedNames

/-!
# Types that a walk takes from elsewhere

A name of a type is looked up in the environment that is named with it, or in the own environment,
the implicit library and the imports. If another environment gives the type, that environment is
required and the type is public there, or an error is reported.

* `Registry.type?`: what an environment declares as a type.
* `Check.TypeFrom`: where a type comes from that a name was resolved to.
* `qualifiedType_from` and `namedType_from`: the two look-ups.
-/

namespace HybroidSema

namespace Registry

variable {r r' : Registry} {target : EnvId} {name : String}

/-- What an environment or library declares as a type under a name. -/
def type? (r : Registry) (target : EnvId) (name : String) : Option DeclaredType :=
  match target.library? with
  | some library => (library.type? name).map (⟨·, true⟩)
  | none => (r.get? target).bind (·.declaredType? name)

theorem type?_of_get? {env : Environment} (h : r.get? target = some env) :
    r.type? target name = env.declaredType? name := by
  rw [type?, library?_of_get? h, h]
  rfl

/-- A declared type stays declared, and public if it was. -/
theorem Lasts.type? (h : r.Lasts r') {declared : DeclaredType}
    (hd : r.type? target name = some declared) :
    ∃ declared', r'.type? target name = some declared' ∧ declared'.isPub = declared.isPub := by
  unfold Registry.type? at hd ⊢
  cases hlibrary : target.library? with
  | some library =>
    rw [hlibrary] at hd
    exact ⟨declared, hd, rfl⟩
  | none =>
    rw [hlibrary] at hd
    obtain ⟨env, henv, hdeclared⟩ := Option.bind_eq_some_iff.1 hd
    obtain ⟨env', henv', hlasts⟩ := h.envs target env henv
    simp only [henv', Option.bind_some]
    exact hlasts.declaredType? hdeclared

end Registry

namespace Check

variable {c : Context} {s s₀ s' t : State} {o : ScopeStack} {own : Environment} {target : EnvId}
  {ty : Ty}

theorem declaredIn?_eq (target : EnvId) (name : String) :
    declaredIn? target name c s = .ok (s.session.registry.type? target name, s) := by
  unfold declaredIn? Registry.type?
  cases target.library? <;> rfl

/-! ## Where types come from -/

/-- At some point between two states of a walk a required environment declared a public type. -/
structure TypeTaken (c : Context) (s t : State) (target : EnvId) (name : String) (ty : Ty) :
    Prop where
  other : target ≠ c.env
  taken : ∃ u, Route c s u ∧ Route c u t ∧ u.session.registry.Requires c.env target ∧
    u.session.registry.type? target name = some ⟨ty, true⟩

theorem TypeTaken.route {name : String} (h : TypeTaken c s t target name ty)
    (hroute : Route c t s') : TypeTaken c s s' target name ty := by
  obtain ⟨hother, u, hbefore, hafter, hrequires, hty⟩ := h
  exact ⟨hother, u, hbefore, hafter.trans hroute, hrequires, hty⟩

/-- What a required environment has declared by the end is public there. -/
theorem TypeTaken.isPublic {name : String} (h : TypeTaken c s t target name ty) (hl : Live c s o)
    (hw : Session.Recording c.walk) {r : Registry} (hlasts : t.session.registry.Lasts r) :
    r.Requires c.env target ∧ ∃ declared, r.type? target name = some declared ∧
      declared.isPub = true := by
  obtain ⟨-, u, hbefore, hafter, hrequires, hty⟩ := h
  obtain ⟨-, _, hl'⟩ := Route.frames hl hbefore
  have hlater := (Route.lasts hl' hw hafter).trans hlasts
  exact ⟨hlater.requires hrequires, hlater.type? hty⟩

/-- Where the type comes from that a name was resolved to between two states: it is a generic
parameter, a type of the own environment or of the implicit library, or a public type of an
environment that is required. -/
inductive TypeFrom (c : Context) (s t : State) (name : String) : Ty → Prop
  | parameter {own : Environment} (hown : s.own? c = some own)
      (h : own.scopes.hasGeneric name = true) : TypeFrom c s t name (.generic name)
  | own {u : State} {own : Environment} {declared : DeclaredType} (hroute : Route c s u)
      (hown : u.own? c = some own) (h : own.declaredType? name = some declared) :
    TypeFrom c s t name declared.ty
  | builtin {info : AliasInfo} (h : Library.builtin.alias? name = some info) :
    TypeFrom c s t name info.ty
  | required {target : EnvId} {ty : Ty} (h : TypeTaken c s t target name ty) :
    TypeFrom c s t name ty

/-! ## The look-ups -/

/-- A type of a named environment, if nothing is reported. -/
theorem qualifiedType_from {env name : Ident} (hl : Live c s o) (hw : Naming c.walk)
    (hs : WellLinked c s) (hrun : qualifiedType env name c s = .ok (ty, t)) :
    t.Failed ∨ TypeFrom c s t name.name ty := by
  have hquiet : Quiet .checking (qualifiedType env name) := quiet_qualifiedType env name
  obtain ⟨hall, -⟩ := (hquiet c s o hl).apply hrun
  obtain ⟨r, u, hread, hrun⟩ := bind_eq_ok hrun
  cases hread
  cases hlookup : s.session.registry.lookup? env.name with
  | none =>
    simp only [hlookup] at hrun
    obtain ⟨_, v, hreport, hrun⟩ := bind_eq_ok hrun
    cases hrun
    exact .inl (report_failed rfl hreport)
  | some target =>
    simp only [hlookup] at hrun
    obtain ⟨linked, v, hlink, hrun⟩ := bind_eq_ok hrun
    obtain ⟨⟨hsteps, hl'⟩, hrequires⟩ := link_requires hl ⟨_, hlookup⟩ hlink
    cases linked with
    | false =>
      cases hrun
      exact .inl (link_failed hlink)
    | true =>
      have hv := Route.wellLinked hl hw hs hsteps.route
      simp only [if_true] at hrun
      rw [bind_apply_ok (declaredIn?_eq target name.name)] at hrun
      cases hdeclared : v.session.registry.type? target name.name with
      | none =>
        simp only [hdeclared] at hrun
        obtain ⟨_, w, hreport, hrun⟩ := bind_eq_ok hrun
        cases hrun
        exact .inl (report_failed rfl hreport)
      | some declared =>
        simp only [hdeclared] at hrun
        obtain ⟨id, w, hid, hrun⟩ := bind_eq_ok hrun
        cases hid
        by_cases hprivate : (!declared.isPub && target != c.env) = true
        · simp only [hprivate, if_true] at hrun
          obtain ⟨_, x, hreport, hrun⟩ := bind_eq_ok hrun
          cases hrun
          exact .inl (report_failed rfl hreport)
        · simp only [hprivate] at hrun
          cases hrun
          refine .inr ?_
          by_cases hself : target = c.env
          · subst hself
            obtain ⟨own, hown, -, -⟩ := hl'.own
            refine .own hsteps.route hown ?_
            rwa [Registry.type?_of_get? hown] at hdeclared
          · have hpublic : declared.isPub = true := by simpa [hself] using hprivate
            obtain ⟨declaredTy, _⟩ := declared
            cases hpublic
            exact .required ⟨hself, _, hsteps.route, .refl,
              (hrequires rfl hv).resolve_left hself, hdeclared⟩

/-- The imports that are gone through, with what was found before them. -/
theorem importedType?_from {name : Ident} {imports : List EnvId} {found : Option (EnvId × Ty)}
    {result : Option Ty} (hl : Live c s o) (hw : Naming c.walk) (hs : WellLinked c s)
    (hbefore : Route c s₀ s) (himports : ∀ target ∈ imports, s.Imports c target)
    (hfound : ∀ q ∈ found, TypeTaken c s₀ s q.1 name.name q.2)
    (hrun : importedType? name imports found c s = .ok (result, t)) :
    ∀ ty ∈ result, ∃ target, TypeTaken c s₀ t target name.name ty := by
  induction imports generalizing s found with
  | nil =>
    cases hrun
    intro ty hty
    obtain ⟨q, hq, rfl⟩ := Option.map_eq_some_iff.1 hty
    exact ⟨q.1, hfound q hq⟩
  | cons target rest ih =>
    obtain ⟨started, u, hstarted, hrest⟩ := bind_eq_ok hrun
    obtain ⟨rfl, -⟩ := (runs_isStarted target).apply hstarted
    obtain ⟨v, hensured, hrest⟩ := guard_eq_ok hrest
    obtain ⟨hsteps, hl'⟩ : Steps c .checking u v ∧ Live c v o := by
      split at hensured
      · exact (runs_ensureImported hl (himports target (by simp)) _).apply hensured
      · cases hensured
        exact ⟨.refl, hl⟩
    have hv := Route.wellLinked hl hw hs hsteps.route
    have hlater (other : EnvId) (hother : other ∈ target :: rest) : v.Imports c other :=
      Steps.imports hl hsteps (himports other hother)
    have hkept : ∀ q ∈ found, TypeTaken c s₀ v q.1 name.name q.2 :=
      fun q hq => (hfound q hq).route hsteps.route
    dsimp only at hrest
    rw [bind_apply_ok (declaredIn?_eq target name.name)] at hrest
    cases hdeclared : (v.session.registry.type? target name.name).filter (·.isPub) with
    | none =>
      simp only [hdeclared] at hrest
      exact ih hl' hv (hbefore.trans hsteps.route) (fun other hother =>
        hlater other (List.mem_cons_of_mem _ hother)) hkept hrest
    | some declared =>
      simp only [hdeclared] at hrest
      cases found with
      | none =>
        obtain ⟨htype, hpublic⟩ := Option.filter_eq_some_iff.1 hdeclared
        obtain ⟨own, hown, himport⟩ := hlater target (by simp)
        obtain ⟨hother, hrequires, -⟩ := hv.imported hown himport
        refine ih hl' hv (hbefore.trans hsteps.route) (fun other hother =>
          hlater other (List.mem_cons_of_mem _ hother)) (fun q hq => ?_) hrest
        cases hq
        obtain ⟨declaredTy, _⟩ := declared
        cases hpublic
        exact ⟨hother, v, hbefore.trans hsteps.route, .refl, hrequires, htype⟩
      | some first =>
        obtain ⟨_, _, hread, hrest⟩ := bind_eq_ok hrest
        cases hread
        obtain ⟨_, w, hreport, hpure⟩ := bind_eq_ok hrest
        cases hpure
        intro ty hty
        cases hty
        have hquiet (first target : String) : Quiet .checking
            (report (.environmentAccessAmbiguity name.name first target) name.span) :=
          quiet_report _ _ rfl
        exact ⟨first.1, (hkept first rfl).route ((hquiet _ _ c v o hl').apply hreport).1.route⟩

/-- A type without an environment, if nothing is reported. -/
theorem namedType_from {name : Ident} (hl : Live c s o) (hw : Naming c.walk) (hs : WellLinked c s)
    (hrun : namedType name c s = .ok (ty, t)) : t.Failed ∨ TypeFrom c s t name.name ty := by
  obtain ⟨own, hown, -, -⟩ := hl.own
  obtain ⟨stack, u, hscopes, hrun⟩ := bind_eq_ok hrun
  obtain ⟨rfl, own', hown', rfl⟩ := scopes_eq_ok hscopes
  obtain rfl := Option.some.inj (hown.symm.trans hown')
  by_cases hgeneric : own.scopes.hasGeneric name.name = true
  · simp only [hgeneric, if_true] at hrun
    cases hrun
    exact .inr (.parameter hown hgeneric)
  · simp only [hgeneric] at hrun
    obtain ⟨env, v, hread, hrun⟩ := bind_eq_ok (m := environment) hrun
    obtain ⟨rfl, hown'⟩ := environment_eq_ok hread
    obtain rfl := Option.some.inj (hown.symm.trans hown')
    cases hdeclared : own.declaredType? name.name with
    | some declared =>
      simp only [hdeclared] at hrun
      cases hrun
      exact .inr (.own .refl hown hdeclared)
    | none =>
      simp only [hdeclared] at hrun
      cases hbuiltin : Library.builtin.alias? name.name with
      | some info =>
        simp only [hbuiltin] at hrun
        cases hrun
        exact .inr (.builtin hbuiltin)
      | none =>
        simp only [hbuiltin] at hrun
        obtain ⟨found, w, hfound, hrun⟩ := bind_eq_ok hrun
        have htaken := importedType?_from hl hw hs .refl (fun _ htarget => ⟨own, hown, htarget⟩)
          (by simp) hfound
        cases found with
        | some found =>
          cases hrun
          obtain ⟨target, htarget⟩ := htaken _ rfl
          exact .inr (.required htarget)
        | none =>
          obtain ⟨_, x, hreport, hrun⟩ := bind_eq_ok hrun
          cases hrun
          exact .inl (report_failed rfl hreport)

end Check

end HybroidSema
