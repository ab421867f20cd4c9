import HybroidSema.Proofs.Accesses
import HybroidSema.Proofs.OwnDeclarations

/-!
# Names that a walk takes from elsewhere

There are two ways to a variable or an enum of another environment: a qualified name, or an
unqualified one that an import has. Each of them ends at an environment that is required, and at
something public there, or an error is reported.

* `Check.Vetted`: the walk has failed, or some qualified names may be used.
* `WellLinked.imported` and `link_requires`: what is known of an import, and of what was linked.
* `identifier_vetted` and `qualifiedName_vetted`: the qualified names that take the place of names.
-/

namespace HybroidSema

namespace Check

variable {c : Context} {s s' t : State} {o : ScopeStack} {own : Environment} {target : EnvId}

/-! ## Names that were vetted -/

/-- The walk has failed, or the qualified names may be used. -/
def Vetted (c : Context) (s : State) (names : List Access) : Prop :=
  s.Failed ∨ ∀ a ∈ names, s.session.registry.Permits c.env a

namespace Vetted

variable {names names' : List Access}

theorem of_eq_nil (h : names = []) : Vetted c s names :=
  .inr (by simp [h])

theorem of_subset (h : Vetted c s names) (hsubset : names' ⊆ names) : Vetted c s names' :=
  h.imp_right fun hpermits a ha => hpermits a (hsubset ha)

theorem append (h : Vetted c s names) (h' : Vetted c s names') : Vetted c s (names ++ names') := by
  rcases h with hfailed | hpermits
  · exact .inl hfailed
  · exact h'.imp_right fun hpermits' => List.forall_mem_append.2 ⟨hpermits, hpermits'⟩

/-- What was vetted stays so. -/
theorem route (h : Vetted c s names) (hl : Live c s o) (hw : Session.Recording c.walk)
    (hroute : Route c s s') : Vetted c s' names :=
  h.imp (Route.failed hroute) fun hpermits a ha => (Route.lasts hl hw hroute).permits (hpermits a ha)

end Vetted

/-! ## Links -/

/-- What the own environment requires is required in the registry. -/
theorem requires_of_mem (hown : s.own? c = some own) (htarget : target ∈ own.requirements) :
    s.session.registry.Requires c.env target :=
  ⟨own, hown, htarget⟩

/-- An import is another environment, which is required and found by its own name. -/
theorem WellLinked.imported (hs : WellLinked c s) (hown : s.own? c = some own)
    (himport : target ∈ own.imports) : target ≠ c.env ∧ s.session.registry.Requires c.env target ∧
      s.session.registry.lookup? (s.session.registry.nameOf target) = some target := by
  have hlinks := hs.inOrder own hown
  have hrequired := hlinks.required himport
  refine ⟨?_, requires_of_mem hown hrequired, ?_⟩
  · rintro rfl
    exact hlinks.others (hs.own_id hown ▸ hrequired)
  · obtain ⟨name, hname⟩ := hs.named own hown target hrequired
    exact Registry.lookup?_nameOf hs.ids hname

/-- What was linked is the own environment or required. -/
theorem link_requires {span : Span} {linked : Bool} (hl : Live c s o)
    (hnamed : ∃ name, s.session.registry.lookup? name = some target)
    (hrun : link target span c s = .ok (linked, t)) :
    (Steps c .checking s t ∧ Live c t o) ∧ (linked = true → WellLinked c t →
      target = c.env ∨ t.session.registry.Requires c.env target) := by
  obtain ⟨hsteps, hrequired⟩ := (runs_link .checking hl hnamed span).apply hrun
  refine ⟨hsteps, fun hlinked ht => or_iff_not_imp_left.2 fun hne => ?_⟩
  obtain ⟨own, hown, -, -⟩ := hsteps.2.own
  refine requires_of_mem hown ?_
  refine (Environment.lacksRequirement_eq_false_iff.1
    (hrequired hlinked hne own hown)).resolve_left ?_
  rwa [ht.own_id hown]

/-- A refused access is an error. -/
theorem severity_accessError? {r : Registry} {source : EnvId} {kind : AlertKind}
    (h : r.accessError? source target = some kind) : kind.severity = .error := by
  unfold Registry.accessError? at h
  split at h
  · cases h
  · split at h
    · split at h <;> cases h
      rfl
    · split at h
      · cases h
      · split at h <;> cases h
        rfl

theorem require_failed {span : Span} (hrun : require target span c s = .ok (false, t)) :
    t.Failed := by
  obtain ⟨r, u, hregistry, hrun⟩ := bind_eq_ok hrun
  cases hregistry
  obtain ⟨id, u, hid, hrun⟩ := bind_eq_ok hrun
  cases hid
  cases hkind : s.session.registry.accessError? c.env target with
  | none =>
    simp only [hkind] at hrun
    obtain ⟨_, _, -, hpure⟩ := bind_eq_ok hrun
    cases hpure
  | some kind =>
    simp only [hkind] at hrun
    obtain ⟨_, u, hreport, hpure⟩ := bind_eq_ok hrun
    cases hpure
    exact report_failed (severity_accessError? hkind) hreport

/-- An environment that may not be linked is reported. -/
theorem link_failed {span : Span} (hrun : link target span c s = .ok (false, t)) : t.Failed := by
  obtain ⟨own, u, hid, hrun⟩ := bind_eq_ok hrun
  cases hid
  by_cases hown : (target == c.env) = true
  · simp only [hown, if_true] at hrun
    cases hrun
  · simp only [hown] at hrun
    obtain ⟨allowed, u, hrequire, hrun⟩ := bind_eq_ok hrun
    cases allowed with
    | true =>
      obtain ⟨_, _, -, hpure⟩ := bind_eq_ok (m := ensureWalked target span) hrun
      cases hpure
    | false =>
      cases hrun
      exact require_failed hrequire

/-! ## Unqualified names -/

/-- A private variable of an import is reported. -/
theorem importedVariable?_public {id : Ident} {imports : List EnvId} {v : Variable}
    (hrun : importedVariable? id imports c s = .ok (some (target, v), t)) :
    t.Failed ∨ v.isPub = true := by
  induction imports generalizing s with
  | nil => cases hrun
  | cons first rest ih =>
    obtain ⟨found, u, hfound, hrun⟩ := bind_eq_ok hrun
    cases found with
    | none => exact ih hrun
    | some binding =>
      dsimp only at hrun
      split at hrun
      · obtain ⟨_, _, -, hrun⟩ := bind_eq_ok (m := registry) hrun
        obtain ⟨_, w, hreport, hpure⟩ := bind_eq_ok hrun
        cases hpure
        exact .inl (report_failed rfl hreport)
      · next hpublic =>
        cases hrun
        exact .inr (by simpa using hpublic)

/-- The qualified name that takes the place of a name of an import, once the import was looked
through. -/
theorem qualify_vetted {id : Ident} {e : Expr} {item : Item} (hs : WellLinked c s)
    (hown : s.own? c = some own) (himport : target ∈ own.imports)
    (hitem : s.session.registry.HasItem target id.name item) (hsession : t.session = s.session)
    (hpublic : t.Failed ∨ item.isPub = true) (hrun : qualify target id c t = .ok (e, s')) :
    Vetted c s' e.accesses := by
  obtain ⟨-, hrequires, hlookup⟩ := hs.imported hown himport
  cases hrun
  refine hpublic.imp_right fun hpublic a ha => ?_
  obtain rfl := List.mem_singleton.1 ha
  rw [hsession]
  exact ⟨target, item, hlookup, .inr hrequires, hitem, fun _ => hpublic⟩

/-- A name that a scope binds becomes no qualified name. -/
theorem StandsFor.accesses_eq_nil {id : Ident} {e : Expr} {value : Value} {position : Nat}
    (h : StandsFor c s id e value) (hown : s.own? c = some own)
    (hresolve : own.scopes.resolve? id.name = some position) : e.accesses = [] := by
  cases h with
  | foreignVariable hown' free =>
    obtain rfl := Option.some.inj (hown.symm.trans hown')
    rw [hresolve] at free
    cases free
  | foreignEnum hown' unbound =>
    obtain rfl := Option.some.inj (hown.symm.trans hown')
    obtain ⟨v, hv⟩ := ScopeStack.exists_binding?_of_resolve? hresolve
    simp [Environment.variableOf?, hresolve, hv] at unbound
  | _ => rfl

/-- A name of no scope that becomes a qualified one is that of a public enum of an import. -/
theorem enumName_vetted {id : Ident} {r : Expr × Value} (hs : WellLinked c s)
    (hown : s.own? c = some own) (hrun : enumName id c s = .ok (r, t)) :
    Vetted c t r.1.accesses := by
  obtain ⟨env, u, hread, hrun⟩ := bind_eq_ok hrun
  obtain ⟨rfl, hown'⟩ := environment_eq_ok hread
  obtain rfl := Option.some.inj (hown.symm.trans hown')
  cases henum : own.enums.get? id.name with
  | some info =>
    simp only [henum] at hrun
    cases hrun
    exact .of_eq_nil rfl
  | none =>
    simp only [henum] at hrun
    obtain ⟨found, v, hfound, hrun⟩ := bind_eq_ok hrun
    obtain ⟨hsession, himport, hmem⟩ :=
      reads_importedEnum?_eq id.name own.imports u found v rfl hfound
    cases found with
    | none =>
      obtain ⟨_, _, -, hrun⟩ := bind_eq_ok hrun
      cases hrun
      exact .of_eq_nil rfl
    | some p =>
      obtain ⟨target, info⟩ := p
      obtain ⟨hinfo, hpublic⟩ := hmem _ rfl
      obtain ⟨id', w, hid, hrun⟩ := bind_eq_ok hrun
      cases hid
      by_cases hself : (target == c.env) = true
      · simp only [hself, if_true] at hrun
        cases hrun
        exact .of_eq_nil rfl
      · simp only [hself] at hrun
        obtain ⟨e, w, hqualify, hrun⟩ := bind_eq_ok hrun
        cases hrun
        exact qualify_vetted hs hown (mem_of_enumImport? himport) (.ofEnum hinfo) hsession
          (.inr hpublic) hqualify

/-- A name that becomes a qualified one is that of something public in an import. -/
theorem identifier_vetted {id : Ident} {r : Expr × Value} (hl : Live c s o) (hs : WellLinked c s)
    (hrun : identifier id c s = .ok (r, t)) : Vetted c t r.1.accesses := by
  obtain ⟨own, hown, -, -⟩ := hl.own
  obtain ⟨stack, u, hscopes, hrest⟩ := bind_eq_ok hrun
  obtain ⟨rfl, own', hown', rfl⟩ := scopes_eq_ok hscopes
  obtain rfl := Option.some.inj (hown.symm.trans hown')
  cases hresolve : own.scopes.resolve? id.name with
  | some position => exact .of_eq_nil ((identifier_standsFor hrun).accesses_eq_nil hown hresolve)
  | none =>
    simp only [hresolve] at hrest
    cases hbuiltin : Library.builtin.binding? id.name with
    | some v =>
      simp only [hbuiltin] at hrest
      cases hrest
      exact .of_eq_nil rfl
    | none =>
      simp only [hbuiltin] at hrest
      obtain ⟨env, v, hread, hrest⟩ := bind_eq_ok hrest
      obtain ⟨rfl, hown'⟩ := environment_eq_ok hread
      obtain rfl := Option.some.inj (hown.symm.trans hown')
      obtain ⟨found, w, hfound, hrest⟩ := bind_eq_ok hrest
      obtain ⟨hsession, -, hmem⟩ := reads_importedVariable? id own.imports v found w rfl hfound
      cases found with
      | none =>
        have hownw : w.own? c = some own := by simpa only [State.own?, hsession] using hown
        refine enumName_vetted ⟨hs.toLinked.of_session_eq hsession, fun env henv => ?_⟩ hownw hrest
        exact hs.inOrder env (by simpa only [State.own?, hsession] using henv)
      | some p =>
        obtain ⟨target, binding⟩ := p
        obtain ⟨himport, hvariable⟩ := hmem _ rfl
        dsimp only at hrest
        cases hconstant : binding.constant with
        | some lit =>
          simp only [hconstant] at hrest
          cases hrest
          exact .of_eq_nil rfl
        | none =>
          simp only [hconstant] at hrest
          obtain ⟨e, x, hqualify, hrest⟩ := bind_eq_ok hrest
          cases hrest
          exact qualify_vetted hs hown himport (.ofVariable hvariable) hsession
            (importedVariable?_public hfound) hqualify

/-! ## Qualified names -/

/-- What a qualified name stands for is declared there. -/
theorem qualified?_hasItem {name : String} {found : Qualified}
    (hrun : qualified? target name c s = .ok (some found, t)) : t = s ∧
      ∃ item, s.session.registry.HasItem target name item ∧ item.isPub = found.isPub := by
  unfold qualified? at hrun
  rw [bind_apply_ok (foreignVariable?_eq target name)] at hrun
  cases hvariable : s.session.registry.variableOf? target name with
  | some v =>
    simp only [hvariable] at hrun
    cases hrun
    exact ⟨rfl, _, .ofVariable hvariable, rfl⟩
  | none =>
    simp only [hvariable] at hrun
    rw [bind_apply_ok (enum?_eq ⟨target, name⟩)] at hrun
    cases hinfo : s.session.registry.enum? ⟨target, name⟩ with
    | some info =>
      simp only [hinfo] at hrun
      cases hrun
      exact ⟨rfl, _, .ofEnum hinfo, rfl⟩
    | none =>
      simp only [hinfo] at hrun
      cases hrun

/-- A qualified name that is kept names something of the own environment, or something public. -/
theorem qualifiedName_vetted {env name : Ident} {span : Span} {r : Expr × Value} (hl : Live c s o)
    (hw : Naming c.walk) (hs : WellLinked c s)
    (hrun : qualifiedName env name span c s = .ok (r, t)) : Vetted c t r.1.accesses := by
  obtain ⟨registry, u, hread, hrun⟩ := bind_eq_ok hrun
  cases hread
  cases hlookup : s.session.registry.lookup? env.name with
  | none =>
    simp only [hlookup] at hrun
    obtain ⟨_, v, hreport, hrun⟩ := bind_eq_ok hrun
    cases hrun
    exact .inl (report_failed rfl hreport)
  | some target =>
    simp only [hlookup] at hrun
    obtain ⟨linked, v, hlink, hrun⟩ := bind_eq_ok hrun
    obtain ⟨⟨hsteps, hl'⟩, hrequires⟩ := link_requires hl ⟨_, hlookup⟩ hlink
    cases linked with
    | false =>
      cases hrun
      exact .inl (link_failed hlink)
    | true =>
      have hs' := Route.wellLinked hl hw hs hsteps.route
      have hlookup' : v.session.registry.lookup? env.name = some target := by
        have hheadings := Route.headings hl hw hsteps.route
        rw [Registry.lookup?_of_names_eq (Registry.names_of_headings_eq hheadings), hlookup]
      obtain ⟨found, w, hfound, hrest⟩ := bind_eq_ok hrun
      cases found with
      | none =>
        obtain ⟨_, x, hreport, hrest⟩ := bind_eq_ok hrest
        cases hrest
        exact .inl (report_failed rfl hreport)
      | some found =>
        obtain ⟨rfl, item, hitem, hpub⟩ := qualified?_hasItem hfound
        obtain ⟨own, x, hid, hrest⟩ := bind_eq_ok hrest
        cases hid
        have hkept {e : Expr} (he : e.accesses = [⟨env, name⟩])
            (hpublic : target = c.env ∨ found.isPub = true) : Vetted c w e.accesses := by
          refine .inr fun a ha => ?_
          obtain rfl := List.mem_singleton.1 (he ▸ ha)
          exact ⟨target, item, hlookup', hrequires rfl hs', hitem,
            fun hne => hpub.trans (hpublic.resolve_left hne)⟩
        by_cases hprivate : (!found.isPub && target != c.env) = true
        · simp only [hprivate, if_true] at hrest
          obtain ⟨_, x, hreport, hrest⟩ := bind_eq_ok hrest
          have hfailed := report_failed rfl hreport
          cases hconstant : found.constant <;> simp only [hconstant] at hrest <;> cases hrest <;>
            exact .inl hfailed
        · simp only [hprivate] at hrest
          cases hconstant : found.constant with
          | some lit =>
            simp only [hconstant] at hrest
            cases hrest
            exact .of_eq_nil rfl
          | none =>
            simp only [hconstant] at hrest
            cases hrest
            refine hkept rfl ?_
            by_cases hself : target = c.env
            · exact .inl hself
            · exact .inr (by simpa [hself] using hprivate)

end Check

end HybroidSema
